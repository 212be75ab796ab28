import Fleet.Proofs.Transport.Tcp.Crossed
import Fleet.Proofs.Transport.Tcp.Muted

/-!
# What becomes of nodes that have dialled each other at the same time

Each node keeps the connection on which it hears from the other one first, and drops the other
connection. If both keep the same connection, it stays. If they keep different ones, each drops what
the other one has kept, and in the end both connections are closed. Which of the two it is depends
on whether at some moment the same connection is in both tables.

## Main definitions

* `Shares` — a connection is in the tables of both nodes.
* `Together`, `Apart` — one connection is left between the nodes, or none is.

## Main statements

* `together_or_apart` — when nothing can happen any more, the nodes are together or apart, and they
  are together by exactly the connection that they have shared at some moment.
* `kept_apart` — they may end up apart.
-/

namespace Fleet

namespace Tcp

/-! ### Tasks that need not wait -/

section Able

variable {t : Tcp} {n : Nat} {c : Connection}

theorem exists_greet {a : Arrival} {rest : List Arrival} (hc : t.connections[n]? = some c)
    (hphase : c.phase = .greeting) (harrivals : c.arrivals = a :: rest) :
    ∃ t', t.step? (.greet n) = some t' := by
  simp only [step?, greet?, hc, hphase, nextArrival?_eq hc harrivals, Option.bind_eq_bind,
    Option.bind_some, ne_eq, not_true_eq_false, if_false]
  split
  · split <;> exact ⟨_, rfl⟩
  · exact ⟨_, rfl⟩

theorem exists_announce {p : Identity} {k : UInt64} (hc : t.connections[n]? = some c)
    (hphase : c.phase = .entered p k) (hroom : t.events.length < mailboxCapacity) :
    ∃ t', t.step? (.announce n) = some t' := by
  simp [step?, announce?, hc, hphase, post?, hroom]

theorem exists_release {p : Identity} {k : UInt64} (hc : t.connections[n]? = some c)
    (hphase : c.phase = .leaving p k) : ∃ t', t.step? (.release n) = some t' := by
  simp only [step?, release?, hc, hphase, Option.bind_eq_bind, Option.bind_some]
  split
  · split <;> exact ⟨_, rfl⟩
  · exact ⟨_, rfl⟩

theorem exists_depart {p : Identity} (hc : t.connections[n]? = some c)
    (hphase : c.phase = .left p) (hroom : t.events.length < mailboxCapacity) :
    ∃ t', t.step? (.depart n) = some t' := by
  simp [step?, depart?, hc, hphase, post?, hroom]

end Able

end Tcp

namespace Crossing

open Tcp (Arrival Connection Phase)

/-- A connection is in the tables of both nodes. -/
def Shares (x : Crossing) (k : Nat) : Prop :=
  ∃ c, x.cables[k]? = some c ∧ ∀ s, ∃ e,
    (x.node s).table.get? (x.node s.other).self.id = some e ∧ e.connection = c.number s

/-- A connection is in the tables of both nodes and is read at both ends, and every other connection
between them is closed at both ends. -/
structure Together (x : Crossing) (k : Nat) : Prop where
  shares : x.Shares k
  ends : ∀ m c, x.cables[m]? = some c → ∀ s e, (x.node s).connections[c.number s]? = some e →
    if m = k then ∃ p n, e.phase = .reading p n else e.phase = .ended

/-- Both tables are empty, and all connections are closed at both ends. -/
def Apart (x : Crossing) : Prop :=
  ∀ s, (x.node s).table.keys = [] ∧ ∀ e ∈ (x.node s).connections, e.phase = .ended

/-! ### When nothing can happen any more -/

section Settled

variable {who : Side → Identity} {x : Crossing}

theorem Settled.task (h : x.Settled) (s : Side) (k : Tcp.Task) : (x.node s).step? k = none := by
  simpa [step?] using h (.task s k)

theorem Settled.nextFrom? (h : x.Settled) {k : Nat} {c : Cable} (hc : x.cables[k]? = some c)
    (s : Side) : x.nextFrom? s c = none := by
  have hnone := h (.arrival s k)
  cases ha : x.nextFrom? s c with
  | none => rfl
  | some a => simp [step?, hc, ha] at hnone

/-- The introduction of a node has arrived, and an end whose close has not arrived is open. -/
theorem Crossed.gone (h : Crossed who x) (hx : x.Settled) {s : Side} {k : Nat} {c : Cable}
    {e : Connection} (hc : x.cables[k]? = some c) (he : (x.node s).connections[k]? = some e) :
    1 ≤ c.arrived s ∧ (e.phase = .ended → 2 ≤ c.arrived s) := by
  have hend := h.ends s k c e hc he
  have hnone := hx.nextFrom? hc s
  rw [Crossing.nextFrom?, h.number k c hc s, he] at hnone
  simp only [Option.bind_eq_bind, Option.bind_some, hend.written] at hnone
  have hone : 1 ≤ c.arrived s := by
    rcases Nat.eq_zero_or_pos (c.arrived s) with hzero | hpos
    · simp [hzero] at hnone
    · exact hpos
  refine ⟨hone, fun hended => ?_⟩
  by_contra hlt
  have heq : c.arrived s = 1 := by omega
  simp [heq, hended] at hnone

/-- When nothing can happen any more, an end is closed, or it is read and the other end is open. -/
theorem Crossed.rests (h : Crossed who x) (hx : x.Settled) {s : Side} {k : Nat} {c : Cable}
    {e e' : Connection} (hc : x.cables[k]? = some c) (he : (x.node s).connections[k]? = some e)
    (he' : (x.node s.other).connections[k]? = some e') :
    e.phase = .ended ∨ (∃ n, e.phase = .reading (who s.other) n) ∧ e'.phase ≠ .ended := by
  have hfits := (h.ends s k c e hc he).fits
  obtain ⟨hone, hclosed⟩ := h.gone hx hc he'
  have hroom : (x.node s).events.length < mailboxCapacity := by
    have hload := h.room s
    rw [load] at hload
    rw [mailboxCapacity]
    omega
  have hwaits : ∀ task, ¬ ∃ t', (x.node s).step? task = some t' := by
    rintro task ⟨t', ht⟩
    cases (hx.task s task).symm.trans ht
  cases hphase : e.phase with
  | greeting =>
    rw [hphase] at hfits
    obtain ⟨n, hn⟩ : ∃ n, c.arrived s.other = n + 1 := Nat.exists_eq_add_of_le' hone
    have harrivals : e.arrivals = .frame (Frame.hello (who s.other)).encode ::
        [Arrival.close].take n := by
      rw [hn] at hfits
      exact hfits
    exact absurd (Tcp.exists_greet he hphase harrivals) (hwaits _)
  | entered p n => exact absurd (Tcp.exists_announce he hphase hroom) (hwaits _)
  | reading p n =>
    rw [hphase] at hfits
    obtain ⟨rfl, -, harrivals⟩ := hfits
    refine .inr ⟨⟨n, rfl⟩, fun hended => ?_⟩
    -- the close of the other end has arrived and can be read
    obtain ⟨m, hm⟩ : ∃ m, c.arrived s.other = m + 2 := Nat.exists_eq_add_of_le' (hclosed hended)
    have hclose : e.arrivals = .close :: [] := by
      rw [harrivals, hm]
      simp [script]
    have hnone : ∀ b, Arrival.close ≠ .frame b := by
      intro b hb
      cases hb
    exact hwaits (.read k) ⟨_, Tcp.read?_eq he hphase hclose hnone⟩
  | leaving p n => exact absurd (Tcp.exists_release he hphase) (hwaits _)
  | left p => exact absurd (Tcp.exists_depart he hphase hroom) (hwaits _)
  | ended => exact .inl rfl

end Settled

/-! ### Together or apart -/

section

variable {who : Side → Identity} {x : Crossing}

theorem Crossed.self (h : Crossed who x) (s : Side) : (x.node s).self = who s := by
  obtain ⟨log, hlog⟩ := (h.reachable s).noted
  exact hlog.kept.own

/-- An end that has an entry in the table has it for the other node. -/
theorem Crossed.peer (h : Crossed who x) {s : Side} {k : Nat} {n : UInt64} {e : Connection}
    {p : Identity} (he : (x.node s).connections[k]? = some e)
    (hheld : e.phase.held? = some (p, n)) : p = who s.other := by
  obtain ⟨c, hc⟩ := h.exists_cable he
  have hfits := (h.ends s k c e hc he).fits
  cases hphase : e.phase <;> rw [hphase] at hfits hheld <;> cases hheld <;> exact hfits.1

theorem Crossed.shares_iff (h : Crossed who x) {k : Nat} : x.Shares k ↔ Joint x k := by
  constructor
  · rintro ⟨c, hc, hentries⟩ s
    obtain ⟨entry, hentry, hnumber⟩ := hentries s
    obtain ⟨-, e, he, hheld⟩ := (h.reachable s).sound.entry _ _ hentry
    rw [hnumber, h.number k c hc] at he
    exact ⟨e, he, by rw [hheld]; simp⟩
  · intro hj
    obtain ⟨e₀, he₀, -⟩ := hj .left
    obtain ⟨c, hc⟩ := h.exists_cable he₀
    refine ⟨c, hc, fun s => ?_⟩
    obtain ⟨e, he, hheld⟩ := hj s
    obtain ⟨⟨p, n⟩, hheld⟩ := Option.ne_none_iff_exists'.1 hheld
    have hentry := (h.reachable s).sound.held k e p n he hheld
    rw [h.self, ← h.peer he hheld, h.number k c hc]
    exact ⟨_, hentry, rfl⟩

/-- A node has one connection at most in its table. -/
theorem Crossed.single (h : Crossed who x) {s : Side} {k m : Nat} {e e' : Connection}
    (he : (x.node s).connections[k]? = some e) (he' : (x.node s).connections[m]? = some e')
    (hheld : e.phase.held? ≠ none) (hheld' : e'.phase.held? ≠ none) : k = m := by
  obtain ⟨⟨p, n⟩, hheld⟩ := Option.ne_none_iff_exists'.1 hheld
  obtain ⟨⟨q, l⟩, hheld'⟩ := Option.ne_none_iff_exists'.1 hheld'
  have hid : p.id = q.id := by rw [h.peer he hheld, h.peer he' hheld']
  exact (h.reachable s).sound.exclusive.single k m e e' p q n l he he' hheld hheld' hid

/-- When nothing can happen any more, the nodes are together by every connection that is in both
tables. -/
theorem Crossed.together (h : Crossed who x) (hx : x.Settled) {k : Nat} (hj : Joint x k) :
    x.Together k := by
  refine ⟨h.shares_iff.2 hj, fun m c hm s e he => ?_⟩
  rw [h.number m c hm s] at he
  obtain ⟨e', he'⟩ := h.exists_end hm s.other
  have hrests := h.rests hx hm he he'
  obtain ⟨e₀, he₀, hheld⟩ := hj s
  split
  · next heq =>
    subst heq
    obtain rfl := Option.some.inj (he₀.symm.trans he)
    rcases hrests with hended | ⟨⟨n, hreading⟩, -⟩
    · exact absurd (by rw [hended]; rfl) hheld
    · exact ⟨_, n, hreading⟩
  · next hne =>
    rcases hrests with hended | ⟨⟨n, hreading⟩, -⟩
    · exact hended
    · exact absurd (h.single he he₀ (by rw [hreading]; simp [Phase.held?]) hheld) hne

/-- When nothing can happen any more, the nodes are together or apart. -/
theorem Crossed.settles (h : Crossed who x) (hx : x.Settled) :
    (∃ k, x.Together k) ∨ x.Apart := by
  by_cases hopen : ∃ (s : Side) (k : Nat) (e : Connection),
      (x.node s).connections[k]? = some e ∧ e.phase ≠ .ended
  · obtain ⟨s, k, e, he, hnot⟩ := hopen
    obtain ⟨c, hc⟩ := h.exists_cable he
    obtain ⟨e', he'⟩ := h.exists_end hc s.other
    -- an end that is not closed is read, and so the other one is read as well
    obtain ⟨⟨n, hreading⟩, hnot'⟩ := (h.rests hx hc he he').resolve_left hnot
    have hself : (x.node s.other.other).connections[k]? = some e := by rw [other_other]; exact he
    obtain ⟨⟨n', hreading'⟩, -⟩ := (h.rests hx hc he' hself).resolve_left hnot'
    refine .inl ⟨k, h.together hx fun r => ?_⟩
    by_cases hr : r = s
    · subst hr
      exact ⟨e, he, by rw [hreading]; simp [Phase.held?]⟩
    · rw [eq_other_of_ne hr]
      exact ⟨e', he', by rw [hreading']; simp [Phase.held?]⟩
  · push Not at hopen
    refine .inr fun s => ⟨List.eq_nil_iff_forall_not_mem.2 fun id hid => ?_, fun e he => ?_⟩
    · obtain ⟨entry, hentry⟩ := Table.mem_keys_iff.1 hid
      obtain ⟨-, e, he, hheld⟩ := (h.reachable s).sound.entry _ _ hentry
      rw [hopen s _ e he] at hheld
      cases hheld
    · obtain ⟨k, hk⟩ := List.getElem?_of_mem he
      exact hopen s k e hk

end

/-- When two nodes have dialled each other at the same time and nothing can happen any more, they
share exactly one of the two connections, or both connections are closed. They share the one that at
some moment was in both tables, and neither if there was no such moment. -/
theorem together_or_apart {left right : Identity} (hleft : (Frame.hello left).Fits)
    (hright : (Frame.hello right).Fits) {hs : List Happening} {y : Crossing}
    (hrun : (crossed left right).run? hs = some y) (hy : y.Settled) :
    ((∃ k, y.Together k) ∨ y.Apart) ∧ ∀ k, y.Together k ↔
      ∃ hs' x, hs' <+: hs ∧ (crossed left right).run? hs' = some x ∧ x.Shares k := by
  have hstart := crossed_crossed hleft hright
  obtain ⟨hend, -⟩ := hstart.run hrun
  refine ⟨hend.settles hy, fun k => ⟨fun htogether => ?_, ?_⟩⟩
  · exact ⟨hs, y, List.prefix_refl hs, hrun, htogether.shares⟩
  · rintro ⟨hs', x, ⟨rest, rfl⟩, hpart, hshares⟩
    rw [run?_append, hpart] at hrun
    obtain ⟨hx, -⟩ := hstart.run hpart
    obtain ⟨-, hkeeps⟩ := hx.run hrun
    exact hend.together hy (hkeeps k (hx.shares_iff.1 hshares))

/-! ### Runs that settle -/

/-- Nothing can be done at an end. -/
def rests (e : Connection) : Bool :=
  e.outbound.isEmpty && match e.phase with
    | .ended => true
    | .reading .. => e.arrivals.isEmpty
    | _ => false

/-- Nothing can be done at any end, and nothing can arrive. -/
def idle (x : Crossing) : Bool :=
  [Side.left, .right].all fun s =>
    (x.node s).connections.all rests && x.cables.all fun c => (x.nextFrom? s c).isNone

theorem not_deed_of_rests {t t' : Tcp} {n : Nat} {e : Connection} (h : rests e = true) :
    ¬ t.Deed n e t' := by
  intro hdeed
  cases hdeed <;> simp_all [rests]

theorem settled_of_idle {x : Crossing} (h : x.idle = true) : x.Settled := by
  have hboth : ∀ s, (∀ e ∈ (x.node s).connections, rests e = true) ∧
      ∀ c ∈ x.cables, x.nextFrom? s c = none := by
    intro s
    cases s <;> simp_all [idle]
  intro a
  cases hstep : x.step? a with
  | none => rfl
  | some x' =>
    cases change_of_step hstep with
    | @deed s n e t he hdeed =>
      exact absurd hdeed (not_deed_of_rests ((hboth s).1 e (List.mem_of_getElem? he)))
    | @arrival s k c b hc hb =>
      cases ((hboth s).2 c (List.mem_of_getElem? hc)).symm.trans hb

/-- The introductions arrive on a connection and both tasks have taken them. -/
def introduced (k : Nat) : List Happening :=
  [.arrival .left k, .arrival .right k, .task .left (.greet k), .task .right (.greet k)]

/-- Both nodes hear from each other on the first connection first. -/
def agreeing : List Happening :=
  introduced 0 ++ [.task .left (.announce 0), .task .right (.announce 0)] ++ introduced 1 ++
    [.arrival .left 1, .arrival .right 1]

theorem agreeing_together : ∃ y, (crossed ⟨"a", ""⟩ ⟨"b", ""⟩).run? agreeing = some y ∧
    y.Settled ∧ (∃ k, y.Together k) ∧ (((∃ k, y.Together k) ∨ y.Apart) ∧ ∀ k, y.Together k ↔
      ∃ hs' x, hs' <+: agreeing ∧ (crossed ⟨"a", ""⟩ ⟨"b", ""⟩).run? hs' = some x ∧
        x.Shares k) := by
  have hrun : ((crossed ⟨"a", ""⟩ ⟨"b", ""⟩).run? agreeing).map (fun y =>
      (y.idle, (y.node .left).table.keys)) = some (true, ["b"]) := by decide +kernel
  obtain ⟨y, hy, heq⟩ := Option.map_eq_some_iff.1 hrun
  obtain ⟨hidle, hkeys⟩ := Prod.mk.inj heq
  have hsettled := settled_of_idle hidle
  have hends := together_or_apart (by decide +kernel) (by decide +kernel) hy hsettled
  refine ⟨y, hy, hsettled, hends.1.resolve_right fun hapart => ?_, hends⟩
  rw [(hapart .left).1] at hkeys
  cases hkeys

/-- Each node hears from the other one on another connection first, and drops the connection that
the other one has kept. -/
def disagreeing : List Happening :=
  [.arrival .right 0, .arrival .left 1, .task .left (.greet 0), .task .right (.greet 1),
    .task .left (.announce 0), .task .right (.announce 1), .arrival .right 1, .arrival .left 0,
    .task .left (.greet 1), .task .right (.greet 0)]

/-- Both learn that the connection which they have kept is closed. -/
def parting : List Happening :=
  [.arrival .left 1, .arrival .right 0, .task .left (.read 0), .task .right (.read 1),
    .task .left (.release 0), .task .right (.release 1), .task .left (.depart 0),
    .task .right (.depart 1), .arrival .left 0, .arrival .right 1]

/-- Each node may keep the connection that the other one drops, and then both are closed. -/
theorem kept_apart : ∃ x y, (crossed ⟨"a", ""⟩ ⟨"b", ""⟩).run? disagreeing = some x ∧
    ((x.node .left).table.get? "b").map (·.connection) = some 0 ∧
    ((x.node .right).table.get? "a").map (·.connection) = some 1 ∧
    x.run? parting = some y ∧ y.Settled ∧ y.Apart ∧ ∀ k, ¬ y.Together k := by
  have hkept : ((crossed ⟨"a", ""⟩ ⟨"b", ""⟩).run? disagreeing).map (fun x =>
      (((x.node .left).table.get? "b").map (·.connection),
        ((x.node .right).table.get? "a").map (·.connection))) = some (some 0, some 1) := by
    decide +kernel
  obtain ⟨x, hx, heq⟩ := Option.map_eq_some_iff.1 hkept
  obtain ⟨hleft, hright⟩ := Prod.mk.inj heq
  have hclosed : (((crossed ⟨"a", ""⟩ ⟨"b", ""⟩).run? disagreeing).bind fun x =>
      x.run? parting).map (fun y => (y.idle, [Side.left, .right].all fun s =>
        (y.node s).table.keys.isEmpty && (y.node s).connections.all fun e =>
          e.phase = .ended)) = some (true, true) := by decide +kernel
  rw [hx] at hclosed
  obtain ⟨y, hy, heq⟩ := Option.map_eq_some_iff.1 hclosed
  obtain ⟨hidle, hends⟩ := Prod.mk.inj heq
  have hapart : y.Apart := by
    intro s
    cases s <;> simp_all
  refine ⟨x, y, hx, hleft, hright, hy, settled_of_idle hidle, hapart, fun k htogether => ?_⟩
  obtain ⟨c, -, hentries⟩ := htogether.shares
  obtain ⟨entry, hentry, -⟩ := hentries .left
  have hkey := Table.mem_keys_iff.2 ⟨entry, hentry⟩
  rw [(hapart .left).1] at hkey
  cases hkey

end Crossing

end Fleet

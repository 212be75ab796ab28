import Fleet.Proofs.Transport.Tcp.Contributions
import Fleet.Proofs.Wire.RoundTrip
import Fleet.Transport.Tcp.Crossing
import Mathlib.Algebra.GroupWithZero.Nat

/-!
# Nodes that have dialled each other at the same time

Two nodes have dialled each other and have two connections between them. From each end of a
connection comes the introduction of its node, and then, once the end is closed, its close. So what
waits at an end follows from how far its task has come and how much has come from the other end. An
end gives up its entry in the table only after the other end has been closed.

## Main definitions

* `End` — an end of a connection at which nothing but the introduction has been sent.
* `Crossed` — what holds at every moment after the nodes have dialled each other.
* `Joint` — both ends of a connection have an entry in the table of their node.

## Main statements

* `Crossed.change`, `Joint.change` — whatever happens keeps both.
* `Crossed.run`, `crossed_crossed` — so every run keeps both, and the first holds at its start.
-/

namespace Fleet.Crossing

open Tcp (Arrival Connection Phase)

/-! ### What happens at an end -/

/-- What comes from an end that only introduces its node before it is closed. -/
def script (p : Identity) : List Arrival := [.frame (Frame.hello p).encode, .close]

/-- How far a task has come and what waits for it, when a number of arrivals has come from the other
end. -/
def Fits (peer : Identity) (arrived : Nat) (waiting : List Arrival) : Phase → Prop
  | .greeting => waiting = (script peer).take arrived
  | .entered p _ | .reading p _ =>
    p = peer ∧ 1 ≤ arrived ∧ waiting = ((script peer).take arrived).drop 1
  | .leaving p _ | .left p => p = peer ∧ 2 ≤ arrived
  | .ended => True

/-- An end of a connection at which nothing has been sent but the introduction of its node, when
some of what it has written has gone to the other end, and some arrivals have come from there. -/
structure End (me peer : Identity) (gone come : Nat) (e : Connection) : Prop where
  written : e.written = [(Frame.hello me).encode]
  outbound : e.outbound = []
  fits : Fits peer come e.arrivals e.phase
  /-- More than the introduction has gone only from an end that is closed. -/
  gone : gone ≤ 1 ∨ gone = 2 ∧ e.phase = .ended

/-- The number of events that the task of a connection can still send if it reads no message. -/
def remaining : Phase → Nat
  | .greeting | .entered .. => 2
  | .reading .. | .leaving .. | .left _ => 1
  | .ended => 0

/-- The number of events in the mailbox of a node, and of those that can still come into it. -/
def load (t : Tcp) : Nat := t.events.length + (t.connections.map fun c => remaining c.phase).sum

theorem take_script_eq_cons {p : Identity} {n : Nat} {a : Arrival} {rest : List Arrival}
    (h : (script p).take n = a :: rest) :
    1 ≤ n ∧ a = .frame (Frame.hello p).encode ∧ rest = ((script p).take n).drop 1 := by
  cases n with
  | zero => cases h
  | succ n =>
    rw [h]
    rw [script, List.take_succ_cons] at h
    cases h
    exact ⟨Nat.succ_pos n, rfl, rfl⟩

/-- After the introduction nothing comes but the close. -/
theorem drop_script_eq_cons {p : Identity} {n : Nat} {a : Arrival} {rest : List Arrival}
    (h : ((script p).take n).drop 1 = a :: rest) : 2 ≤ n ∧ a = .close := by
  match n with
  | 0 | 1 => cases h
  | n + 2 =>
    rw [script, List.take_succ_cons, List.take_succ_cons] at h
    cases h
    exact ⟨Nat.le_add_left 2 n, rfl⟩

theorem Fits.arrive {peer : Identity} {n : Nat} {waiting : List Arrival} {phase : Phase}
    {a : Arrival} (h : Fits peer n waiting phase) (ha : (script peer)[n]? = some a) :
    Fits peer (n + 1) (waiting ++ [a]) phase := by
  have htake : (script peer).take (n + 1) = (script peer).take n ++ [a] := by
    rw [List.take_add_one, ha]
    rfl
  cases phase with
  | greeting => exact (congrArg (· ++ [a]) h).trans htake.symm
  | entered p k | reading p k =>
    obtain ⟨hp, hn, hwaiting⟩ := h
    refine ⟨hp, Nat.le_succ_of_le hn, ?_⟩
    have hlength : 1 ≤ ((script peer).take n).length := by
      rw [List.length_take, script, List.length_cons]
      omega
    rw [htake, List.drop_append_of_le_length hlength, hwaiting]
  | leaving p k | left p => exact ⟨h.1, Nat.le_succ_of_le h.2⟩
  | ended => trivial

/-- What a deed changes at an end. The task has not ended before, it sends what it could still send,
and it gives up its entry in the table only when it leaves. -/
theorem End.deed {t t' : Tcp} {n gone come : Nat} {me peer : Identity} {e : Connection}
    (h : End me peer gone come e) (hdeed : t.Deed n e t')
    (hhello : Frame.decode (Frame.hello peer).encode = .ok (.hello peer)) :
    ∃ e', t'.connections = (t.set n e').connections ∧ End me peer gone come e' ∧
      t'.events.length + remaining e'.phase ≤ t.events.length + remaining e.phase ∧
        (e.phase.held? ≠ none → (∀ p k, e.phase ≠ .leaving p k) → e'.phase.held? ≠ none) := by
  obtain ⟨hwritten, houtbound, hfits, hgone⟩ := h
  have hgone' : ∀ {phase : Phase}, e.phase ≠ .ended → gone ≤ 1 ∨ gone = 2 ∧ phase = .ended :=
    fun hnot => hgone.imp_right fun hended => absurd hended.2 hnot
  cases hdeed with
  | refuses hphase harrivals hwelcome =>
    rw [hphase] at hgone' ⊢
    exact ⟨_, rfl, ⟨hwritten, houtbound, trivial, hgone' (by simp)⟩, by simp [remaining, Tcp.set],
      fun hheld => absurd rfl hheld⟩
  | @enters a rest p hphase harrivals hwelcome =>
    rw [hphase] at hfits hgone' ⊢
    obtain ⟨hone, rfl, hrest⟩ := take_script_eq_cons (hfits.symm.trans harrivals)
    obtain ⟨hintroduced, -, -⟩ := Tcp.welcome?_eq_some_iff.1 hwelcome
    obtain rfl : p = peer := by simpa [Arrival.hello?, hhello] using hintroduced.symm
    exact ⟨_, rfl, ⟨hwritten, houtbound, ⟨rfl, hone, hrest⟩, hgone' (by simp)⟩, le_refl _,
      fun hheld => absurd rfl hheld⟩
  | announces hphase =>
    rw [hphase] at hfits hgone' ⊢
    exact ⟨_, rfl, ⟨hwritten, houtbound, hfits, hgone' (by simp)⟩, by simp [remaining],
      fun _ _ => by simp [Phase.held?]⟩
  | reads hphase harrivals hframe =>
    rw [hphase] at hfits
    obtain ⟨-, rfl⟩ := drop_script_eq_cons (hfits.2.2.symm.trans harrivals)
    cases hframe
  | ceases hphase harrivals hframe =>
    rw [hphase] at hfits hgone' ⊢
    obtain ⟨htwo, -⟩ := drop_script_eq_cons (hfits.2.2.symm.trans harrivals)
    exact ⟨_, rfl, ⟨hwritten, houtbound, ⟨hfits.1, htwo⟩, hgone' (by simp)⟩, le_refl _,
      fun _ _ => by simp [Phase.held?]⟩
  | releases hphase he =>
    rw [hphase] at hfits hgone' ⊢
    exact ⟨_, rfl, ⟨hwritten, rfl, hfits, hgone' (by simp)⟩, le_refl _,
      fun _ hleaving => absurd rfl (hleaving _ _)⟩
  | forgets hphase hother =>
    rw [hphase] at hgone' ⊢
    exact ⟨_, rfl, ⟨hwritten, rfl, trivial, hgone' (by simp)⟩, by simp [remaining, Tcp.set],
      fun _ hleaving => absurd rfl (hleaving _ _)⟩
  | departs hphase =>
    rw [hphase] at hgone' ⊢
    exact ⟨_, rfl, ⟨hwritten, houtbound, trivial, hgone' (by simp)⟩, by simp [remaining],
      fun hheld => absurd rfl hheld⟩
  | writes hnext | stops _ hnext =>
    rw [houtbound] at hnext
    cases hnext

theorem sum_map_set {α : Type} (f : α → Nat) {l : List α} {n : Nat} {a : α} (b : α)
    (h : l[n]? = some a) : ((l.set n b).map f).sum + f a = (l.map f).sum + f b := by
  induction l generalizing n with
  | nil => cases h
  | cons x rest ih =>
    cases n with
    | zero =>
      cases h
      simp only [List.set_cons_zero, List.map_cons, List.sum_cons]
      omega
    | succ n =>
      have hrest := ih h
      simp only [List.set_cons_succ, List.map_cons, List.sum_cons]
      omega

theorem load_le {t t' : Tcp} {n : Nat} {e e' : Connection} (he : t.connections[n]? = some e)
    (hconnections : t'.connections = (t.set n e').connections)
    (hevents : t'.events.length + remaining e'.phase ≤ t.events.length + remaining e.phase) :
    load t' ≤ load t := by
  have hsum := sum_map_set (fun c => remaining c.phase) e' he
  rw [load, load, hconnections, Tcp.set]
  dsimp only at hsum ⊢
  omega

/-! ### What happens between the nodes -/

@[simp] theorem other_other (s : Side) : s.other.other = s := by cases s <;> rfl

@[simp] theorem other_ne (s : Side) : s.other ≠ s := by cases s <;> simp [Side.other]

theorem eq_other_of_ne {s r : Side} (h : r ≠ s) : r = s.other := by
  cases s <;> cases r <;> simp_all [Side.other]

@[simp] theorem withNode_self (x : Crossing) (s : Side) (t : Tcp) : (x.withNode s t).node s = t :=
  if_pos rfl

theorem withNode_ne {x : Crossing} {s r : Side} {t : Tcp} (h : r ≠ s) :
    (x.withNode s t).node r = x.node r := if_neg h

/-- What holds of the nodes still holds when one of them has changed, if it holds of that one. -/
theorem forall_withNode {x : Crossing} {s : Side} {t : Tcp} {p : Side → Tcp → Prop}
    (h : ∀ r, p r (x.node r)) (hs : p s t) (r : Side) : p r ((x.withNode s t).node r) := by
  by_cases hr : r = s
  · subst hr
    rw [withNode_self]
    exact hs
  · rw [withNode_ne hr]
    exact h r

/-- The connections of the nodes after one of them has changed. -/
theorem getElem?_withNode {x : Crossing} {s r : Side} {t : Tcp} {n k : Nat}
    {e e' e'' : Connection} (he : (x.node s).connections[n]? = some e)
    (hconnections : t.connections = ((x.node s).set n e').connections)
    (h : ((x.withNode s t).node r).connections[k]? = some e'') :
    r = s ∧ k = n ∧ e'' = e' ∨ (r = s → k ≠ n) ∧ (x.node r).connections[k]? = some e'' := by
  by_cases hr : r = s
  · subst hr
    rw [withNode_self, hconnections] at h
    rcases Tcp.getElem?_set he h with ⟨hk, heq⟩ | ⟨hk, hold⟩
    · exact .inl ⟨rfl, hk, heq⟩
    · exact .inr ⟨fun _ => hk, hold⟩
  · rw [withNode_ne hr] at h
    exact .inr ⟨fun heq => absurd heq hr, h⟩

/-- A connection after something more has arrived from one of its ends. -/
def counted (s : Side) (c : Cable) : Cable :=
  { c with arrived := fun r => if r = s then c.arrived r + 1 else c.arrived r }

@[simp] theorem arrived_counted_self (s : Side) (c : Cable) :
    (counted s c).arrived s = c.arrived s + 1 := if_pos rfl

@[simp] theorem arrived_counted_other (s : Side) (c : Cable) :
    (counted s c).arrived s.other = c.arrived s.other := if_neg (other_ne s)

/-- The connections between the nodes after something has arrived on one of them. -/
theorem getElem?_modify {l : List Cable} {s : Side} {k m : Nat} {c c' : Cable}
    (hc : l[k]? = some c) (h : (l.modify k (counted s))[m]? = some c') :
    m = k ∧ c' = counted s c ∨ m ≠ k ∧ l[m]? = some c' := by
  rw [List.getElem?_modify] at h
  split at h
  · next heq =>
    subst heq
    rw [hc] at h
    exact .inl ⟨rfl, (Option.some.inj h).symm⟩
  · next hne =>
    exact .inr ⟨fun heq => hne heq.symm, by simpa using h⟩

/-- What holds at every moment after two nodes have dialled each other. -/
structure Crossed (who : Side → Identity) (x : Crossing) : Prop where
  hello : ∀ s, Frame.decode (Frame.hello (who s)).encode = .ok (.hello (who s))
  number : ∀ (k : Nat) (c : Cable), x.cables[k]? = some c → ∀ s, c.number s = k
  complete : ∀ s, (x.node s).connections.length = x.cables.length
  reachable : ∀ s, Tcp.Reachable (who s) (x.node s)
  ends : ∀ (s : Side) (k : Nat) (c : Cable) (e : Connection), x.cables[k]? = some c →
    (x.node s).connections[k]? = some e →
      End (who s) (who s.other) (c.arrived s) (c.arrived s.other) e
  room : ∀ s, load (x.node s) ≤ 4

/-- What happens between two nodes: a deed of a task, or an arrival. -/
inductive Change (x : Crossing) : Crossing → Prop
  | deed {s : Side} {n : Nat} {e : Connection} {t : Tcp}
      (he : (x.node s).connections[n]? = some e) (hdeed : (x.node s).Deed n e t)
      (hstep : (x.node s).Step t) : Change x (x.withNode s t)
  | arrival {s : Side} {k : Nat} {c : Cable} {a : Arrival} (hc : x.cables[k]? = some c)
      (ha : x.nextFrom? s c = some a) :
      Change x { x.withNode s.other ((x.node s.other).arrive (c.number s.other) a) with
        cables := x.cables.modify k (counted s) }

theorem change_of_step {x x' : Crossing} {h : Happening} (hstep : x.step? h = some x') :
    Change x x' := by
  cases h with
  | task s k =>
    obtain ⟨t, ht, rfl⟩ := Option.map_eq_some_iff.1 hstep
    obtain ⟨e, he, hdeed⟩ := Tcp.deed_of_step ht
    exact .deed he hdeed (.task k ht)
  | arrival s k =>
    simp only [step?, Option.bind_eq_bind, Option.bind_eq_some_iff] at hstep
    obtain ⟨c, hc, a, ha, hx⟩ := hstep
    cases hx
    exact .arrival hc ha

section Steps

variable {who : Side → Identity} {x x' : Crossing}

theorem Crossed.exists_end (h : Crossed who x) {k : Nat} {c : Cable} (hc : x.cables[k]? = some c)
    (s : Side) : ∃ e, (x.node s).connections[k]? = some e := by
  obtain ⟨hlt, -⟩ := List.getElem?_eq_some_iff.1 hc
  exact ⟨_, List.getElem?_eq_getElem (h.complete s ▸ hlt)⟩

theorem Crossed.exists_cable (h : Crossed who x) {s : Side} {k : Nat} {e : Connection}
    (he : (x.node s).connections[k]? = some e) : ∃ c, x.cables[k]? = some c := by
  obtain ⟨hlt, -⟩ := List.getElem?_eq_some_iff.1 he
  exact ⟨_, List.getElem?_eq_getElem (h.complete s ▸ hlt)⟩

/-- From an end comes the introduction of its node, and then that it is closed. -/
theorem Crossed.nextFrom? (h : Crossed who x) {s : Side} {k : Nat} {c : Cable} {e : Connection}
    {a : Arrival} (hc : x.cables[k]? = some c) (he : (x.node s).connections[k]? = some e)
    (ha : x.nextFrom? s c = some a) : (script (who s))[c.arrived s]? = some a ∧
      (c.arrived s = 0 ∨ c.arrived s = 1 ∧ e.phase = .ended) := by
  have hend := h.ends s k c e hc he
  rw [Crossing.nextFrom?, h.number k c hc s, he] at ha
  simp only [Option.bind_eq_bind, Option.bind_some, hend.written] at ha
  split at ha
  · next b hb =>
    obtain ⟨hzero, rfl⟩ : c.arrived s = 0 ∧ b = (Frame.hello (who s)).encode := by
      cases hn : c.arrived s with
      | zero =>
        rw [hn] at hb
        cases hb
        exact ⟨rfl, rfl⟩
      | succ n =>
        rw [hn] at hb
        cases hb
    cases ha
    rw [hzero]
    exact ⟨rfl, .inl rfl⟩
  · split at ha
    · next hended =>
      cases ha
      have hone : c.arrived s = 1 := hended.2
      rw [hone]
      exact ⟨rfl, .inr ⟨rfl, hended.1⟩⟩
    · cases ha

theorem Crossed.deed (h : Crossed who x) {s : Side} {n : Nat} {e : Connection} {t : Tcp}
    (he : (x.node s).connections[n]? = some e) (hdeed : (x.node s).Deed n e t)
    (hstep : (x.node s).Step t) : Crossed who (x.withNode s t) := by
  obtain ⟨c₀, hc⟩ := h.exists_cable he
  obtain ⟨e', hconnections, hend, hload, -⟩ := (h.ends s n c₀ e hc he).deed hdeed (h.hello s.other)
  refine ⟨h.hello, h.number, ?_, ?_, fun r k c e₁ hk he₁ => ?_, ?_⟩
  · refine forall_withNode (p := fun _ u => u.connections.length = x.cables.length) h.complete ?_
    rw [hconnections, Tcp.set, List.length_set]
    exact h.complete s
  · exact forall_withNode (p := fun r u => Tcp.Reachable (who r) u) h.reachable
      ((h.reachable s).step hstep)
  · rcases getElem?_withNode he hconnections he₁ with ⟨rfl, rfl, rfl⟩ | ⟨-, hold⟩
    · cases hc.symm.trans hk
      exact hend
    · exact h.ends r k c e₁ hk hold
  · exact forall_withNode (p := fun _ u => load u ≤ 4) h.room
      ((load_le he hconnections hload).trans (h.room s))

/-- What arrives waits at the other end. -/
theorem Crossed.arrive_eq (h : Crossed who x) {s : Side} {k : Nat} {c : Cable} {e : Connection}
    (a : Arrival) (hc : x.cables[k]? = some c) (he : (x.node s).connections[k]? = some e) :
    (x.node s).arrive (c.number s) a =
      (x.node s).set k { e with arrivals := e.arrivals ++ [a] } := by
  rw [h.number k c hc, Tcp.arrive, Tcp.modify_eq_set _ he]

theorem Crossed.arrival (h : Crossed who x) {s : Side} {k : Nat} {c : Cable} {a : Arrival}
    (hc : x.cables[k]? = some c) (ha : x.nextFrom? s c = some a) :
    Crossed who { x.withNode s.other ((x.node s.other).arrive (c.number s.other) a) with
      cables := x.cables.modify k (counted s) } := by
  obtain ⟨e, he⟩ := h.exists_end hc s
  obtain ⟨e', he'⟩ := h.exists_end hc s.other
  obtain ⟨hscript, hcount⟩ := h.nextFrom? hc he ha
  have harrive := h.arrive_eq a hc he'
  have hconnections := congrArg Tcp.connections harrive
  refine ⟨h.hello, fun m c₁ hm r => ?_, ?_, ?_, fun r m c₁ e₁ hm he₁ => ?_, ?_⟩
  · rcases getElem?_modify hc hm with ⟨rfl, rfl⟩ | ⟨-, hm⟩
    · exact h.number m c hc r
    · exact h.number m c₁ hm r
  · rw [List.length_modify]
    refine forall_withNode (p := fun _ u => u.connections.length = x.cables.length) h.complete ?_
    rw [hconnections, Tcp.set, List.length_set]
    exact h.complete s.other
  · exact forall_withNode (p := fun r u => Tcp.Reachable (who r) u) h.reachable
      ((h.reachable s.other).step (.arrived _ _ _))
  · rcases getElem?_modify hc hm with ⟨rfl, rfl⟩ | ⟨hne, hm⟩
    · rcases getElem?_withNode he' hconnections he₁ with ⟨rfl, -, rfl⟩ | ⟨hr, hold⟩
      · have hend := h.ends s.other m c e' hc he'
        rw [other_other] at hend ⊢
        rw [arrived_counted_self, arrived_counted_other]
        exact ⟨hend.written, hend.outbound, hend.fits.arrive hscript, hend.gone⟩
      · -- the end from which it comes
        obtain rfl : r = s := by
          by_contra hne
          exact hr (eq_other_of_ne hne) rfl
        obtain rfl := Option.some.inj (he.symm.trans hold)
        have hend := h.ends r m c e hc he
        rw [arrived_counted_self, arrived_counted_other]
        refine ⟨hend.written, hend.outbound, hend.fits, ?_⟩
        rcases hcount with hzero | ⟨hone, hended⟩
        · exact .inl (by omega)
        · exact .inr ⟨by omega, hended⟩
    · rcases getElem?_withNode he' hconnections he₁ with ⟨-, heq, -⟩ | ⟨-, hold⟩
      · exact absurd heq hne
      · exact h.ends r m c₁ e₁ hm hold
  · refine forall_withNode (p := fun _ u => load u ≤ 4) h.room ?_
    exact (load_le he' hconnections (by rw [harrive]; rfl)).trans (h.room s.other)

/-- Whatever happens between the nodes keeps it. -/
theorem Crossed.change (h : Crossed who x) (hchange : Change x x') : Crossed who x' := by
  cases hchange with
  | deed he hdeed hstep => exact h.deed he hdeed hstep
  | arrival hc ha => exact h.arrival hc ha

/-- Both ends of a connection have an entry in the table of their node. -/
def Joint (x : Crossing) (k : Nat) : Prop :=
  ∀ s, ∃ e, (x.node s).connections[k]? = some e ∧ e.phase.held? ≠ none

/-- An end leaves only after the other one has been closed. -/
theorem Joint.not_leaving {k : Nat} (hj : Joint x k) (h : Crossed who x) {s : Side}
    {e : Connection} (he : (x.node s).connections[k]? = some e) (p : Identity)
    (n : UInt64) : e.phase ≠ .leaving p n := by
  intro hleaving
  obtain ⟨c, hc⟩ := h.exists_cable he
  obtain ⟨e', he', hheld⟩ := hj s.other
  have hfits := (h.ends s k c e hc he).fits
  rw [hleaving] at hfits
  rcases (h.ends s.other k c e' hc he').gone with hle | ⟨-, hended⟩
  · have htwo := hfits.2
    omega
  · exact hheld (by rw [hended]; rfl)

/-- As long as both ends have their entries, nothing takes an entry out. -/
theorem Joint.change {k : Nat} (hj : Joint x k) (h : Crossed who x) (hchange : Change x x') :
    Joint x' k := by
  intro r
  obtain ⟨e₀, he₀, hheld⟩ := hj r
  cases hchange with
  | @deed s n e t he hdeed hstep =>
    by_cases hr : r = s
    · subst hr
      rw [withNode_self]
      obtain ⟨c₀, hc₀⟩ := h.exists_cable he
      obtain ⟨e', hconnections, hend, -, hkeeps⟩ :=
        (h.ends r n c₀ e hc₀ he).deed hdeed (h.hello r.other)
      rw [hconnections]
      by_cases hk : k = n
      · subst hk
        obtain rfl := Option.some.inj (he.symm.trans he₀)
        exact ⟨e', Tcp.getElem?_set_self e' he, hkeeps hheld (hj.not_leaving h he)⟩
      · exact ⟨e₀, (Tcp.getElem?_set_ne e' hk).trans he₀, hheld⟩
    · exact ⟨e₀, by rw [withNode_ne hr]; exact he₀, hheld⟩
  | @arrival s m c₁ a hc₁ ha =>
    by_cases hr : r = s.other
    · subst hr
      obtain ⟨e', he'⟩ := h.exists_end hc₁ s.other
      dsimp only
      rw [withNode_self, h.arrive_eq a hc₁ he']
      by_cases hk : k = m
      · subst hk
        obtain rfl := Option.some.inj (he'.symm.trans he₀)
        exact ⟨_, Tcp.getElem?_set_self _ he', hheld⟩
      · exact ⟨e₀, (Tcp.getElem?_set_ne _ hk).trans he₀, hheld⟩
    · exact ⟨e₀, by dsimp only; rw [withNode_ne hr]; exact he₀, hheld⟩

/-- Every run keeps it, and the connections whose ends both have entries. -/
theorem Crossed.run (h : Crossed who x) {hs : List Happening} (hrun : x.run? hs = some x') :
    Crossed who x' ∧ ∀ k, Joint x k → Joint x' k := by
  induction hs generalizing x with
  | nil =>
    cases hrun
    exact ⟨h, fun _ hj => hj⟩
  | cons a rest ih =>
    obtain ⟨x₁, hstep, hrest⟩ := Option.bind_eq_some_iff.1 hrun
    have hchange := change_of_step hstep
    obtain ⟨hend, hkeeps⟩ := ih (h.change hchange) hrest
    exact ⟨hend, fun k hj => hkeeps k (hj.change h hchange)⟩

theorem run?_append (x : Crossing) (hs hs' : List Happening) :
    x.run? (hs ++ hs') = (x.run? hs).bind fun y => y.run? hs' := by
  induction hs generalizing x with
  | nil => rfl
  | cons a rest ih =>
    rw [List.cons_append, run?, run?]
    cases x.step? a with
    | none => rfl
    | some y => exact ih y

end Steps

/-- The node on each side. -/
def nodeOf (left right : Identity) : Side → Identity
  | .left => left
  | .right => right

theorem node_crossed (left right : Identity) (s : Side) : (crossed left right).node s =
    ((Tcp.new (nodeOf left right s)).establish.2).establish.2 := by
  cases s <;> rfl

theorem crossed_crossed {left right : Identity} (hleft : (Frame.hello left).Fits)
    (hright : (Frame.hello right).Fits) : Crossed (nodeOf left right) (crossed left right) := by
  have hhello : ∀ s, Frame.decode (Frame.hello (nodeOf left right s)).encode =
      .ok (.hello (nodeOf left right s))
    | .left => (Frame.decode_encode_iff hleft).2 trivial
    | .right => (Frame.decode_encode_iff hright).2 trivial
  have hcables : ∀ (k : Nat) (c : Cable), (crossed left right).cables[k]? = some c →
      (∀ s, c.number s = k) ∧ ∀ s, c.arrived s = 0 := by
    intro k c hc
    match k with
    | 0 | 1 =>
      cases hc
      exact ⟨fun s => by cases s <;> rfl, fun _ => rfl⟩
    | k + 2 => cases hc
  refine ⟨hhello, fun k c hc => (hcables k c hc).1, fun s => by rw [node_crossed]; rfl, fun s => ?_,
    fun s k c e hc he => ?_, fun s => by rw [node_crossed]; exact le_refl _⟩
  · rw [node_crossed]
    exact (Tcp.Reachable.new.step (.opened _)).step (.opened _)
  · obtain ⟨-, hzero⟩ := hcables k c hc
    rw [node_crossed] at he
    rw [hzero, hzero]
    have hfresh : e = ⟨.greeting, [], .notStarted, [],
        [(Frame.hello (nodeOf left right s)).encode]⟩ := by
      match k with
      | 0 | 1 =>
        cases he
        rfl
      | k + 2 => cases he
    rw [hfresh]
    exact ⟨rfl, rfl, rfl, .inl (Nat.zero_le 1)⟩

end Fleet.Crossing

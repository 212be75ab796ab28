import Fleet.Proofs.Messenger.Resolution
import Fleet.Proofs.Node.Moves
import Fleet.Proofs.Transport.Watched

/-!
# Who gets a message

A message is written once to every connection that one of its targets means, and to no other one.  A
query is written only if that is a single connection; else it fails at once, and nothing changes.

## Main definitions

* `Site.connected` — the connections of a node.
* `Query.Leads` — a query goes on, whatever happens at its node in between.

## Main statements

* `Site.writeAll_spec` — what is written to several nodes.
* `Query.Leads.not_failed` — a query that has found its connection does not fail any more.
* `Site.addressed` — who gets a message, and which queries fail.
-/

namespace Fleet

variable {σ : Type} [Transport σ]

/-- The ids of the peers that a node is connected to. -/
def Site.connected (s : Site σ) : List String :=
  (Transport.connections s.links s.node.id).map (·.id)

/-! ### Messages -/

/-- A message is written to each receiver once, in order, and the writes that worked are counted. -/
theorem Site.writeAll_spec (m : Message) (receivers : List String) (s : Site (Watched σ)) :
    ∃ sent, (writeAll m receivers s).2.links.attempts = s.links.attempts ++ sent ∧
      sent.map (·.receiver) = receivers ∧ (∀ a ∈ sent, a.message = m) ∧
      (writeAll m receivers s).1 = sent.countP (·.worked) := by
  induction receivers generalizing s with
  | nil => exact ⟨[], by simp [writeAll], rfl, by simp, rfl⟩
  | cons receiver rest ih =>
    obtain ⟨sent, hattempts, hreceivers, hmessage, hcount⟩ := ih (s.write receiver m).2
    refine ⟨⟨receiver, (s.write receiver m).1.isOk, m⟩ :: sent, ?_, ?_, ?_, ?_⟩
    · rw [attempts_write] at hattempts
      rw [writeAll]
      simpa using hattempts
    · rw [List.map_cons, hreceivers]
    · simpa using hmessage
    · rw [writeAll, List.countP_cons, ← hcount]
      dsimp only
      split <;> rfl

/-! ### Queries -/

namespace Query

/-- A query goes on step by step, and between its steps anything may happen at its node. -/
inductive Leads (σ : Type) [Transport σ] (q : Query) : Query → Prop
  | refl : Leads σ q q
  | step {q' : Query} (h : Leads σ q q') (s : Site σ) : Leads σ q (q'.step s).1

/-- A query that has found its connection and has not failed. -/
def Underway : Query → Prop
  | .opening .. | .done (.error _) => False
  | .writing .. | .waiting .. | .overdue _ | .done (.ok _) => True

theorem Underway.move {s s' : Site σ} {q q' : Query} (hmove : Move s q q' s') (h : q.Underway) :
    q'.Underway := by
  cases hmove with
  | enters | unaddressed => exact h.elim
  | written | unwritten | expires | late => trivial
  | @picks _ _ r => cases r <;> trivial
  | rests => exact h

/-- A query that has found its connection does not fail any more. -/
theorem Leads.underway {q q' : Query} (hlead : Leads σ q q') (h : q.Underway) : q'.Underway := by
  induction hlead with
  | refl => exact h
  | step _ s ih => exact ih.move (move_step s _)

/-- A query that has ended stays as it is. -/
theorem Leads.done {q : Query} {r : Except MessengerError (Option Message)}
    (hlead : Leads σ (.done r) q) : q = .done r := by
  induction hlead with
  | refl => rfl
  | step _ s ih =>
    rw [ih]
    rfl

/-- A query whose targets stand for a single connection is under way. -/
theorem underway_opening {s : Site σ} {m : Message} (timeout : Nat)
    (h : (s.resolve m.targets).length = 1) : ((opening m timeout).step s).1.Underway := by
  obtain ⟨target, hfound⟩ := List.length_eq_one_iff.1 h
  simp only [step, hfound]
  trivial

/-- Every other query fails, and nothing changes. -/
theorem step_opening_of_ne {s : Site σ} {m : Message} (timeout : Nat)
    (h : (s.resolve m.targets).length ≠ 1) : (opening m timeout).step s =
      (.done (.error (.invalidTarget m.channel (s.resolve m.targets).length)), s) := by
  rw [step]
  split
  · next target hfound => exact absurd (congrArg List.length hfound) h
  · rfl

end Query

/-- Targets stand for the connections that one of them means, each once and in the order of the
targets.  A message is written once to each of these and to nobody else, and the writes that worked
are counted.  A query fails if and only if its targets do not mean a single connection; then the
failure tells how many they mean, and nothing is written or changed. -/
theorem Site.addressed (s : Site (Watched σ)) (hdistinct : s.connected.Nodup) :
    (∀ targets, Found s.connected targets (s.resolve targets)) ∧
    (∀ m, ∃ sent, (s.send m).2.links.attempts = s.links.attempts ++ sent ∧
      sent.map (·.receiver) = s.resolve m.targets ∧ (∀ a ∈ sent, a.message = m) ∧
      (s.send m).1 = sent.countP (·.worked)) ∧
    ∀ m timeout, let n := (s.connected.filter fun id => ∃ t ∈ m.targets, t.Means id).length
      (n ≠ 1 → (Query.opening m timeout).step s =
        (.done (.error (.invalidTarget m.channel n)), s)) ∧
      ∀ q, Query.Leads (Watched σ) ((Query.opening m timeout).step s).1 q →
        ∀ e, q = .done (.error e) ↔ n ≠ 1 ∧ e = .invalidTarget m.channel n := by
  have hfound : ∀ targets, Found s.connected targets (s.resolve targets) :=
    found_resolve hdistinct
  refine ⟨hfound, fun m => writeAll_spec m _ s, fun m timeout => ?_⟩
  dsimp only
  rw [← (hfound m.targets).length_eq hdistinct]
  by_cases hn : (s.resolve m.targets).length = 1
  · refine ⟨fun hne => absurd hn hne, fun q hlead e => ?_⟩
    have hq := hlead.underway (Query.underway_opening timeout hn)
    constructor
    · rintro rfl
      exact hq.elim
    · exact fun h => absurd hn h.1
  · have hstep := Query.step_opening_of_ne timeout hn
    refine ⟨fun _ => hstep, fun q hlead e => ?_⟩
    rw [hstep] at hlead
    rw [hlead.done, Query.done.injEq, Except.error.injEq, eq_comm, and_iff_right hn]

namespace Site

/-- A node with three connections, of which the last one does not work. -/
def switchboard : Site (Watched Scripted) where
  node := .new ⟨"n", "n:1"⟩ 4096 5000
  links := ⟨(((Scripted.empty.connect ⟨"a", "a:1"⟩).connect ⟨"b", "b:1"⟩).connect
    ⟨"c", "c:1"⟩).fail "c" (some .closed), []⟩
  drawn := 0
  calls := []
  clock := 0
  noticed := 0
  now := .epoch

/-- A message to a node, to all, and to the same node once more. -/
def notice : Message := ⟨"x", "n", [.node "b", .all, .node "b"], [1], false, none⟩

/-- Everybody gets the message once, the node that was named first before the others, and one write
fails; as a query, the message goes to nobody. -/
theorem switchboard_addressed :
    switchboard.connected.Nodup ∧
    (∃ sent, (switchboard.send notice).2.links.attempts = sent ∧
      sent.map (·.receiver) = ["b", "a", "c"] ∧ (switchboard.send notice).1 = 2) ∧
    (Query.opening notice 5000).step switchboard =
      (.done (.error (.invalidTarget "x" 3)), switchboard) := by
  have hdistinct : switchboard.connected.Nodup := by decide +kernel
  obtain ⟨-, hsend, hquery⟩ := addressed switchboard hdistinct
  obtain ⟨sent, hattempts, hreceivers, -, -⟩ := hsend notice
  have hmeant : (switchboard.connected.filter fun id => ∃ t ∈ notice.targets, t.Means id).length =
      3 := by decide +kernel
  have hfails := (hquery notice 5000).1
  rw [hmeant] at hfails
  refine ⟨hdistinct, ⟨sent, hattempts, ?_, by decide +kernel⟩, hfails (by decide)⟩
  rw [hreceivers]
  decide +kernel

end Site

end Fleet

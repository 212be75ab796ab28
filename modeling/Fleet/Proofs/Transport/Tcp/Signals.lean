import Fleet.Proofs.Node.Following
import Fleet.Proofs.Transport.Tcp.Sound
import Mathlib.Data.List.Chain

/-!
# What the events of a node say about its connections

A peer is announced once for every time that it is reported gone, and once more exactly while it is
in the table. The order is another matter. A connection is taken out of the table before its peer is
reported gone, and in between the peer may come back and be announced on another connection. Then
the last that is heard of a connected peer is that it is gone, and the node that follows the events
holds it for unavailable. This is the only way: if no peer is announced twice without being reported
gone in between, the last event tells whether the peer is in the table.
-/

namespace Fleet

/-- A peer is never said to be there twice without being said to be gone in between. -/
def Alternates (l : List Bool) : Prop := l.IsChain fun a b => ¬ (a = true ∧ b = true)

/-- At no time has a peer been said to be gone more often than to be there. -/
def Covered (l : List Bool) : Prop := ∀ l', l' <+: l → l'.count false ≤ l'.count true

theorem Covered.append {l : List Bool} {b : Bool} (h : Covered l)
    (hb : (l ++ [b]).count false ≤ (l ++ [b]).count true) : Covered (l ++ [b]) := by
  intro l' hl'
  rcases List.prefix_concat_iff.1 hl' with rfl | hold
  · exact hb
  · exact h l' hold

/-- Whoever was last said to be there has been said to be there more often than to be gone. -/
theorem Covered.lt_of_getLast? {l : List Bool} (h : Covered l) (hlast : l.getLast? = some true) :
    l.count false < l.count true := by
  obtain ⟨rest, rfl⟩ := List.getLast?_eq_some_iff.1 hlast
  have hrest := h rest (List.prefix_append _ _)
  simp only [List.count_append, List.count_singleton_self]
  simp
  omega

/-- If the two alternate, the last one tells which of them is ahead. -/
theorem Covered.count_of_alternates {l : List Bool} (h : Covered l) (halternates : Alternates l) :
    l.count true = l.count false + if l.getLast? = some true then 1 else 0 := by
  induction l using List.reverseRecOn with
  | nil => rfl
  | append_singleton l b ih =>
    obtain ⟨hl, -, hjoin⟩ := List.isChain_append.1 halternates
    have hcount := ih (fun l' hl' => h l' (hl'.trans (List.prefix_append _ _))) hl
    have hwhole := h _ (List.prefix_refl _)
    cases b with
    | true =>
      have hlast : l.getLast? ≠ some true := fun hlast => hjoin true hlast true rfl ⟨rfl, rfl⟩
      rw [if_neg hlast] at hcount
      simp [hcount]
    | false =>
      simp only [List.count_append, List.count_singleton_self] at hwhole ⊢
      simp at hwhole ⊢
      split at hcount <;> omega

namespace Tcp

/-- The runs of a node with the events that they have put into its mailbox. -/
inductive Logged (self : Identity) : Tcp → List TransportEvent → Prop
  | new : Logged self (.new self) []
  | step {t t' : Tcp} {log : List TransportEvent} (h : Logged self t log) (s : Step t t') :
      Logged self t' (log ++ t'.events.drop t.events.length)

theorem Logged.reachable {self : Identity} {t : Tcp} {log : List TransportEvent}
    (h : Logged self t log) : Reachable self t := by
  induction h with
  | new => exact .new
  | step _ s ih => exact ih.step s

/-- The task of a connection has announced a peer and has not reported it gone. -/
def Phase.announced (p : String) : Phase → Bool
  | .reading i _ | .leaving i _ | .left i => i.id = p
  | .greeting | .entered .. | .ended => false

/-- The peer about which the task of a connection has an event to send. -/
def Phase.unsent? : Phase → Option String
  | .entered i _ | .left i => some i.id
  | .greeting | .reading .. | .leaving .. | .ended => none

/-- No task has an event to send about a peer. -/
def Quiet (p : String) (t : Tcp) : Prop := ∀ c ∈ t.connections, c.phase.unsent? ≠ some p

/-- The number of connections on which a peer has been announced and not been reported gone. -/
def standing (p : String) (t : Tcp) : Nat := t.connections.countP fun c => c.phase.announced p

theorem standing_set {t : Tcp} {n : Nat} {c : Connection} (p : String) (c' : Connection)
    (hc : t.connections[n]? = some c) :
    (t.set n c').standing p + (if c.phase.announced p then 1 else 0) =
      t.standing p + (if c'.phase.announced p then 1 else 0) := by
  obtain ⟨hlt, rfl⟩ := List.getElem?_eq_some_iff.1 hc
  have hle : (if t.connections[n].phase.announced p then 1 else 0) ≤ t.standing p := by
    split
    · next hp => exact List.countP_pos_iff.2 ⟨_, List.getElem_mem hlt, hp⟩
    · exact Nat.zero_le _
  rw [standing, set, List.countP_set hlt]
  rw [standing] at hle ⊢
  omega

theorem standing_set_of_eq {t : Tcp} {n : Nat} {c c' : Connection} {p : String}
    (hc : t.connections[n]? = some c) (heq : c'.phase.announced p = c.phase.announced p) :
    (t.set n c').standing p = t.standing p := by
  have h := standing_set p c' hc
  rw [heq] at h
  omega

/-- What a step says about a peer, and how many connections stand for the peer afterwards. -/
theorem Move.standing {t t' : Tcp} {news : Option (Nat × Arrival)} (hmove : Move t news t')
    (hs : t.Sound) (p : String) :
    signals p (t'.events.drop t.events.length) = [] ∧ t'.standing p = t.standing p ∨
      signals p (t'.events.drop t.events.length) = [true] ∧ t'.standing p = t.standing p + 1 ∨
        signals p (t'.events.drop t.events.length) = [false] ∧
          t'.standing p + 1 = t.standing p := by
  have hnone : signals p (t.events.drop t.events.length) = [] := by simp [signals]
  cases hmove with
  | rests => exact .inl ⟨hnone, rfl⟩
  | opens =>
    refine .inl ⟨hnone, ?_⟩
    simp [Tcp.standing, establish, Phase.announced]
  | arrives hc => exact .inl ⟨hnone, standing_set_of_eq hc rfl⟩
  | works hc hphase hwriter harrivals hevents =>
    refine .inl ⟨?_, standing_set_of_eq hc (by rw [hphase])⟩
    rcases hevents with rfl | ⟨m, rfl⟩
    · exact hnone
    · simp [signals, TransportEvent.signal?]
  | @takes e rest h =>
    refine .inl ⟨?_, rfl⟩
    have hdrop : rest.drop t.events.length = [] := List.drop_of_length_le (by simp [h])
    change signals p (rest.drop t.events.length) = []
    rw [hdrop]
    rfl
  | refuses hc hphase => exact .inl ⟨hnone, standing_set_of_eq hc (by rw [hphase]; rfl)⟩
  | enters hc hphase => exact .inl ⟨hnone, standing_set_of_eq hc (by rw [hphase]; rfl)⟩
  | ceases hc hphase => exact .inl ⟨hnone, standing_set_of_eq hc (by rw [hphase]; rfl)⟩
  | releases hc hphase => exact .inl ⟨hnone, standing_set_of_eq hc (by rw [hphase]; rfl)⟩
  | forgets hc hphase hother =>
    exact absurd rfl (hother _ (hs.held _ _ _ _ hc (by rw [hphase]; rfl)))
  | @announces n k c i hc hphase =>
    have h := standing_set p { c with phase := .reading i k, writer := .running } hc
    rw [hphase] at h
    by_cases hi : i.id = p
    · simp only [Phase.announced, hi, decide_true, if_true, Bool.false_eq_true, if_false] at h
      exact .inr (.inl ⟨by simp [signals, TransportEvent.signal?, hi], h⟩)
    · simp only [Phase.announced, hi, decide_false, Bool.false_eq_true, if_false] at h
      exact .inl ⟨by simp [signals, TransportEvent.signal?, hi], h⟩
  | @departs n c i hc hphase =>
    have h := standing_set p { c with phase := .ended } hc
    rw [hphase] at h
    by_cases hi : i.id = p
    · simp only [Phase.announced, hi, decide_true, if_true, Bool.false_eq_true, if_false] at h
      exact .inr (.inr ⟨by simp [signals, TransportEvent.signal?, hi], h⟩)
    · simp only [Phase.announced, hi, decide_false, Bool.false_eq_true, if_false] at h
      exact .inl ⟨by simp [signals, TransportEvent.signal?, hi], h⟩

/-- In a sound state, whoever stands for a peer about which nothing is left to send is in the table.
-/
theorem Sound.entry_of_announced {t : Tcp} {p : String} {n : Nat} {c : Connection} (hs : t.Sound)
    (hquiet : t.Quiet p) (hc : t.connections[n]? = some c) (hp : c.phase.announced p = true) :
    ∃ e, t.table.get? p = some e ∧ e.connection = n := by
  have hunsent := hquiet c (List.mem_of_getElem? hc)
  cases hphase : c.phase with
  | reading i k | leaving i k =>
    have hheld := hs.held n c i k hc (by rw [hphase]; rfl)
    have hi : i.id = p := by simpa [hphase, Phase.announced] using hp
    exact ⟨_, hi ▸ hheld, rfl⟩
  | left i =>
    have hi : i.id = p := by simpa [hphase, Phase.announced] using hp
    exact absurd (by rw [hphase, ← hi]; rfl) hunsent
  | greeting | entered | ended => simp [hphase, Phase.announced] at hp

/-- If nothing is left to send about a peer, one connection stands for it if it is in the table, and
none otherwise. -/
theorem Sound.standing_of_quiet {t : Tcp} {p : String} (hs : t.Sound) (hquiet : t.Quiet p) :
    t.standing p = if t.table.contains p then 1 else 0 := by
  cases he : t.table.get? p with
  | none =>
    rw [if_neg (by simp [Table.contains, he])]
    refine List.countP_eq_zero.2 fun c hc hp => ?_
    obtain ⟨n, hn⟩ := List.getElem?_of_mem hc
    obtain ⟨e, he', -⟩ := hs.entry_of_announced hquiet hn hp
    rw [he] at he'
    cases he'
  | some e =>
    rw [if_pos (Table.contains_iff.2 ⟨e, he⟩)]
    obtain ⟨hpeer, c, hc, hheld⟩ := hs.entry p e he
    have hp : c.phase.announced p = true := by
      have hunsent := hquiet c (List.mem_of_getElem? hc)
      cases hphase : c.phase <;>
        simp_all [Phase.held?, Phase.announced, Phase.unsent?]
    -- without this connection nobody stands for the peer any more
    have hrest : (t.set e.connection { c with phase := .ended }).standing p = 0 := by
      refine List.countP_eq_zero.2 fun c' hc' hp' => ?_
      obtain ⟨m, hm⟩ := List.getElem?_of_mem hc'
      rcases getElem?_set hc hm with ⟨-, rfl⟩ | ⟨hne, hm⟩
      · cases hp'
      · obtain ⟨e', he', hm'⟩ := hs.entry_of_announced hquiet hm hp'
        cases he.symm.trans he'
        exact hne hm'.symm
    have h := standing_set p { c with phase := .ended } hc
    rw [hrest, if_pos hp] at h
    exact h.symm

namespace Logged

variable {self : Identity} {t : Tcp} {log : List TransportEvent}

/-- A peer has been announced as often as it was reported gone, and once more for each connection
that stands for it. -/
theorem balanced (h : Logged self t log) (p : String) :
    (signals p log).count true = (signals p log).count false + t.standing p ∧
      Covered (signals p log) := by
  induction h with
  | new =>
    refine ⟨rfl, fun l' hl' => ?_⟩
    rw [List.prefix_nil.1 hl']
    exact le_refl _
  | @step t t' log h s ih =>
    obtain ⟨hcount, hcovered⟩ := ih
    obtain ⟨news, hmove, -⟩ := s.move
    rw [signals_append]
    rcases hmove.standing h.reachable.sound p with
      ⟨hnew, heq⟩ | ⟨hnew, heq⟩ | ⟨hnew, heq⟩
    · rw [hnew, List.append_nil, heq]
      exact ⟨hcount, hcovered⟩
    · rw [hnew]
      have hcount' : (signals p log ++ [true]).count true =
          (signals p log ++ [true]).count false + t'.standing p := by
        simp [hcount, heq]
        omega
      exact ⟨hcount', hcovered.append (by omega)⟩
    · rw [hnew]
      have hcount' : (signals p log ++ [false]).count true =
          (signals p log ++ [false]).count false + t'.standing p := by
        simp [hcount, ← heq]
        omega
      exact ⟨hcount', hcovered.append (by omega)⟩

end Logged

/-- What the events that a node has got say about a peer, when nothing is left to send about it. -/
structure Reported (self : Identity) (t : Tcp) (log : List TransportEvent) (p : String) : Prop where
  /-- The peer was announced as often as it was reported gone, and once more if it is in the table.
  -/
  balance : (signals p log).count true =
    (signals p log).count false + if t.table.contains p then 1 else 0
  /-- Who was last announced is in the table. -/
  up : (signals p log).getLast? = some true → t.table.contains p = true
  /-- Who is in the table was last announced, unless it was ever announced twice in a row. -/
  down : Alternates (signals p log) → t.table.contains p = true →
    (signals p log).getLast? = some true
  /-- A node that did not know the peer and follows the events holds it for available exactly if it
  was last announced. -/
  followed : ∀ {σ : Type} [FaithfulTransport σ] (s : Site σ), s.node.id = self.id → p ≠ self.id →
    s.node.holds p = false →
      ((log.foldl Site.handle s).node.holds p = true ↔ (signals p log).getLast? = some true)

theorem last_signal {self : Identity} {t : Tcp} {log : List TransportEvent} {p : String}
    (h : Logged self t log) (hquiet : t.Quiet p) : Reported self t log p := by
  obtain ⟨hcount, hcovered⟩ := h.balanced p
  have hstanding := h.reachable.sound.standing_of_quiet hquiet
  rw [hstanding] at hcount
  refine ⟨hcount, fun hlast => ?_, fun halternates hp => ?_, fun s hid hp hs => ?_⟩
  · have hlt := hcovered.lt_of_getLast? hlast
    by_contra hnot
    rw [if_neg hnot] at hcount
    omega
  · have hahead := hcovered.count_of_alternates halternates
    by_contra hnot
    rw [if_neg hnot] at hahead
    rw [if_pos hp] at hcount
    omega
  · rw [Site.holds_foldl log (hid ▸ hp), hs]
    cases (signals p log).getLast? <;> simp

/-! ### Runs of steps -/

/-- The connections after a task has taken its step if it can. -/
def after (k : Task) (t : Tcp) : Tcp := (t.step? k).getD t

/-- Something happens if it can. -/
def Happens (f : Tcp → Tcp) : Prop := ∀ t, f t = t ∨ Step t (f t)

theorem happens_after (k : Task) : Happens (after k) := by
  intro t
  rw [after]
  cases h : t.step? k with
  | none => exact .inl rfl
  | some t' => exact .inr (.task k h)

/-- What has become of a node and what it has been told, after one thing has happened after
another. -/
def play (self : Identity) (script : List (Tcp → Tcp)) : Tcp × List TransportEvent :=
  script.foldl (fun x f => (f x.1, x.2 ++ (f x.1).events.drop x.1.events.length)) (new self, [])

theorem logged_play {self : Identity} {script : List (Tcp → Tcp)} (h : ∀ f ∈ script, Happens f) :
    Logged self (play self script).1 (play self script).2 := by
  induction script using List.reverseRecOn with
  | nil => exact .new
  | append_singleton script f ih =>
    have hold := ih fun g hg => h g (List.mem_append_left _ hg)
    rw [play, List.foldl_append, List.foldl_cons, List.foldl_nil, ← play]
    rcases h f (by simp) (play self script).1 with hsame | hstep
    · dsimp only
      rw [hsame, List.drop_length, List.append_nil]
      exact hold
    · exact hold.step hstep

/-- A peer connects on the connection with a number: it introduces itself and is entered. -/
def meet (peer : Identity) (n : Nat) : List (Tcp → Tcp) :=
  [fun t => t.establish.2, fun t => t.arrive n (.frame (Frame.hello peer).encode),
    after (.greet n)]

theorem happens_meet {peer : Identity} {n : Nat} : ∀ f ∈ meet peer n, Happens f := by
  intro f hf
  simp only [meet, List.mem_cons, List.not_mem_nil, or_false] at hf
  rcases hf with rfl | rfl | rfl
  · exact fun t => .inr (.opened t)
  · exact fun t => .inr (.arrived t n _)
  · exact happens_after _

/-- A peer has connected and has been announced. -/
def met : Tcp × List TransportEvent :=
  play ⟨"a", ""⟩ (meet ⟨"b", ""⟩ 0 ++ [after (.announce 0)])

theorem logged_met : Logged ⟨"a", ""⟩ met.1 met.2 := by
  refine logged_play fun f hf => ?_
  rcases List.mem_append.1 hf with hf | hf
  · exact happens_meet f hf
  · exact List.mem_singleton.1 hf ▸ happens_after _

theorem reported_met : met.1.Quiet "b" ∧ Reported ⟨"a", ""⟩ met.1 met.2 "b" := by
  have hquiet : met.1.Quiet "b" := by
    rw [Quiet]
    decide +kernel
  exact ⟨hquiet, last_signal logged_met hquiet⟩

/-- A peer has closed its connection and has come back on another one, and is announced on that one
just before it is reported gone. -/
def overtaken : Tcp × List TransportEvent :=
  play ⟨"a", ""⟩ (meet ⟨"b", ""⟩ 0 ++ [after (.announce 0), fun t => t.arrive 0 .close,
    after (.read 0), after (.release 0)] ++ meet ⟨"b", ""⟩ 1 ++ [after (.announce 1),
      after (.depart 0)])

/-- A peer that is in the table may be the one that was last reported gone, and a node that follows
the events holds it for unavailable. -/
theorem gone_but_connected :
    Logged ⟨"a", ""⟩ overtaken.1 overtaken.2 ∧
      (∀ c ∈ overtaken.1.connections, c.phase.unsent? = none) ∧
        overtaken.1.table.contains "b" = true ∧
          (signals "b" overtaken.2).getLast? = some false ∧
            ∀ s : Site Network, s.node = .new ⟨"a", ""⟩ 0 0 →
              (overtaken.2.foldl Site.handle s).node.holds "b" = false := by
  have hlast : (signals "b" overtaken.2).getLast? = some false := by decide +kernel
  refine ⟨logged_play fun f hf => ?_, by decide +kernel, by decide +kernel, hlast, fun s hs => ?_⟩
  · simp only [List.mem_append, List.mem_cons, List.not_mem_nil, or_false] at hf
    rcases hf with ((hf | rfl | rfl | rfl | rfl) | hf) | rfl | rfl
    · exact happens_meet f hf
    · exact happens_after _
    · exact fun t => .inr (.arrived t 0 _)
    · exact happens_after _
    · exact happens_after _
    · exact happens_meet f hf
    · exact happens_after _
    · exact happens_after _
  · have hne : "b" ≠ s.node.id := by
      rw [hs]
      decide
    rw [Site.holds_foldl _ hne, hlast]
    rfl

end Tcp

end Fleet

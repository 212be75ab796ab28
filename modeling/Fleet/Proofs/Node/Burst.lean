import Fleet.Proofs.Member.Placement
import Fleet.Proofs.Node.Moves
import Fleet.Proofs.Service.Answers
import Fleet.Transport.Scripted

/-!
# A head in a burst of requests

The load that a node has stored of itself lags behind the services that it has started since.  A
head therefore decides as if its used memory were at least what is reserved by now.  It stores this
before it decides, under the time of the decision, and nothing else in its view changes.  So in a
burst of requests every decision counts what the ones before it have started.

## Main definitions

* `Roster.withOwnUse` — a view with other used memory of the node itself.
* `Node.DecidesBy` — a head decides as if its view were a given one.
* `Burst` — requests that a head handles while its own load is not stored anew.

## Main statements

* `Node.refreshLoad_eq` — what a head stores before it decides.
* `Node.decidesBy_withOwnUse` — what the decision goes by.
* `Burst.counts` — the memory that has been reserved and the memory that is counted in a burst.
* `head_counts_reserved` — both, for every node and every burst.
-/

namespace Fleet

/-- A view with other used memory of the node itself, whose load it holds. -/
def Roster.withOwnUse (r : Roster) (l : Load) (used : UInt64) : Roster :=
  { r with self := { r.self with load := some { l with used } } }

/-- The head decides about a request as if its view were this one: another node of the view that
placement selects is asked, and else the service is started here. -/
structure Node.DecidesBy (n : Node) (now : Instant) (spec : ServiceSpec) (view : Roster) :
    Prop where
  remote : ∀ t, (n.headRoute spec now).1 = .remote t ↔
    selectFrom view.members spec.demand = some t ∧ t.id ≠ n.id
  here : (n.headRoute spec now).1 = .here ↔
    ∀ t, selectFrom view.members spec.demand = some t → t.id = n.id

/-- What a head has stored of itself after it has decided: the reserved memory and the time, if less
memory was stored. -/
def Load.raised (l : Load) (reserved : UInt64) (now : Instant) : Load :=
  if l.used < reserved then { l with used := reserved, at_ := now } else l

theorem toNat_used_raised (l : Load) (reserved : UInt64) (now : Instant) :
    (l.raised reserved now).used.toNat = max l.used.toNat reserved.toNat := by
  rw [Load.raised]
  split
  · next h => exact (Nat.max_eq_right (Nat.le_of_lt (UInt64.lt_iff_toNat_lt.1 h))).symm
  · next h =>
    rw [UInt64.not_lt, UInt64.le_iff_toNat_le] at h
    exact (Nat.max_eq_left h).symm

theorem cpu_raised (l : Load) (reserved : UInt64) (now : Instant) :
    (l.raised reserved now).cpu = l.cpu := by
  rw [Load.raised]
  split <;> rfl

namespace Node

variable {n : Node} {l : Load} {now : Instant}

/-- A node with another load stored of itself. -/
def withOwnLoad (n : Node) (l : Load) : Node :=
  { n with roster := { n.roster with self := { n.roster.self with load := some l } } }

theorem withOwnLoad_self (h : n.roster.self.load = some l) : n.withOwnLoad l = n := by
  obtain ⟨⟨⟨identity, load, available⟩, peers, next⟩, ledger, messenger, inbound⟩ := n
  cases h
  rfl

/-- A load that is not of an earlier time is stored. -/
theorem report_self (l' : Load) (h : n.roster.self.load = some l) (hle : l.at_ ≤ l'.at_) :
    n.roster.report n.id l' = .ok (n.withOwnLoad l').roster := by
  have haccepts : n.roster.self.accepts l' = true := by
    rw [Member.accepts, h]
    exact hle
  rw [Roster.report, id, if_pos rfl, Member.report, if_pos haccepts]
  rfl

/-- Before it decides, a head stores the memory that is reserved by now, if less was stored. -/
theorem refreshLoad_eq (h : n.roster.self.load = some l) (hclock : l.at_ ≤ now) :
    n.refreshLoad now = n.withOwnLoad (l.raised n.ledger.reserved now) := by
  simp only [refreshLoad, h]
  by_cases hlt : l.used < n.ledger.reserved
  · have hreport := report_self { l with used := n.ledger.reserved, at_ := now } h hclock
    rw [if_neg (UInt64.not_le.2 hlt), hreport, Load.raised, if_pos hlt]
    rfl
  · rw [if_pos (UInt64.not_lt.1 hlt), Load.raised, if_neg hlt, withOwnLoad_self h]

theorem headRoute_snd (n : Node) (spec : ServiceSpec) (now : Instant) :
    (n.headRoute spec now).2 = n.refreshLoad now := rfl

/-- A head that has refreshed its own load decides by its view. -/
theorem decidesBy_refreshLoad (n : Node) (spec : ServiceSpec) (now : Instant) :
    n.DecidesBy now spec (n.refreshLoad now).roster := by
  have hid : (n.refreshLoad now).id = n.id := n.id_refreshLoad now
  have hroute : (n.headRoute spec now).1 =
      (selectFrom (n.refreshLoad now).roster.members spec.demand).elim .here
        fun m => if m.id = n.id then .here else .remote m := by
    simp only [headRoute, choose, Roster.select, hid]
    cases selectFrom (n.refreshLoad now).roster.members spec.demand <;> rfl
  constructor
  · intro t
    rw [hroute]
    cases hselect : selectFrom (n.refreshLoad now).roster.members spec.demand with
    | none => simp
    | some m => by_cases hm : m.id = n.id <;> simp [hm] <;> grind
  · rw [hroute]
    cases hselect : selectFrom (n.refreshLoad now).roster.members spec.demand with
    | none => simp
    | some m => by_cases hm : m.id = n.id <;> simp [hm]

theorem DecidesBy.congr {spec : ServiceSpec} {view view' : Roster} (h : n.DecidesBy now spec view)
    (hsame : ∀ t, t.id ≠ n.id → (selectFrom view.members spec.demand = some t ↔
      selectFrom view'.members spec.demand = some t)) : n.DecidesBy now spec view' := by
  constructor
  · intro t
    rw [h.remote t]
    exact and_congr_left fun hne => hsame t hne
  · rw [h.here]
    refine forall_congr' fun t => ?_
    by_cases hid : t.id = n.id
    · simp [hid]
    · simp only [hid, imp_false, hsame t hid]

/-- A head decides as if its used memory were what it has stored or what is reserved by now, if that
is more. -/
theorem decidesBy_withOwnUse (h : n.roster.self.load = some l) (hclock : l.at_ ≤ now)
    {used : UInt64} (hused : used.toNat = max l.used.toNat n.ledger.reserved.toNat)
    (spec : ServiceSpec) : n.DecidesBy now spec (n.roster.withOwnUse l used) := by
  refine (n.decidesBy_refreshLoad spec now).congr fun t hne => ?_
  have hsame : (l.raised n.ledger.reserved now).SameUse { l with used } := by
    refine ⟨?_, cpu_raised ..⟩
    rw [← UInt64.toNat_inj, toNat_used_raised, hused]
  rw [refreshLoad_eq h hclock, Roster.members, Roster.members]
  rcases selectFrom_cons_congr (n.withOwnLoad (l.raised n.ledger.reserved now)).roster.self
    (n.roster.withOwnUse l used).self
    (((n.roster.peers.values.mergeSort fun a b => a.number ≤ b.number).map (·.member)))
    spec.demand rfl rfl rfl hsame with ⟨hfirst, hfirst'⟩ | heq
  · -- the node itself is selected both times, and `t` is another node
    have hself : ∀ m : Member, m.identity = n.roster.self.identity → m ≠ t := by
      rintro m hm rfl
      exact hne (congrArg Identity.id hm)
    constructor
    · intro hselect
      exact absurd (Option.some.inj (hfirst.symm.trans hselect)) (hself _ rfl)
    · intro hselect
      exact absurd (Option.some.inj (hfirst'.symm.trans hselect)) (hself _ rfl)
  · exact iff_of_eq (congrArg (· = some t) heq)

/-- A decision that is repeated before anything else is stored or reserved is the same, at whatever
time, and changes nothing. -/
theorem headRoute_again {n' : Node} {spec : ServiceSpec} (h : n.roster.self.load = some l)
    (hclock : l.at_ ≤ now) (hroster : n'.roster = (n.headRoute spec now).2.roster)
    (hreserved : n'.ledger.reserved = n.ledger.reserved) (now' : Instant) :
    n'.headRoute spec now' = ((n.headRoute spec now).1, n') := by
  have hrefresh := refreshLoad_eq h hclock
  have hload : n'.roster.self.load = some (l.raised n.ledger.reserved now) := by
    rw [hroster, headRoute_snd, hrefresh]
    rfl
  have hrest : n'.refreshLoad now' = n' := by
    have hle : n'.ledger.reserved ≤ (l.raised n.ledger.reserved now).used := by
      rw [UInt64.le_iff_toNat_le, toNat_used_raised, hreserved]
      exact Nat.le_max_right ..
    simp only [refreshLoad, hload, if_pos hle]
  have hid : n'.id = (n.refreshLoad now).id := by
    rw [id, hroster, headRoute_snd, id]
  rw [headRoute_snd] at hroster
  have hchoose : n'.choose spec = (n.refreshLoad now).choose spec := by
    rw [choose, choose, hroster, hid]
  rw [headRoute, headRoute, hrest, hchoose]

end Node

/-! ### Bursts -/

/-- The memory of the service that has been started, none if none was. -/
def memoryStarted {ε : Type} : Except ε Service → Nat
  | .ok s => s.memory.toNat
  | .error _ => 0

/-- The memory of the service that a creation ends with. -/
def Creation.memoryEnded : Creation → Nat
  | .done r => memoryStarted r
  | _ => 0

/-- A creation in which a node is about to take a step as head: it has been asked as head, or is the
head in its own view, or has only a node to choose. -/
inductive Creation.AtHead (n : Node) (spec : ServiceSpec) : Creation → Prop
  | routing (hhead : n.roster.head.id = n.id) : AtHead n spec (.routing spec)
  | placing : AtHead n spec (.placing spec)
  | choosing : AtHead n spec (.choosing spec)

variable {σ : Type}

/-- A node takes steps as head for requests, for several in turn or side by side, and starts
services that another head asks for, without storing its own load anew in between. Everything else
may happen in between; `started` is the memory of the services that it has started. The clock is
never behind the load that is stored. -/
inductive Burst [Transport σ] (s : Site σ) : (started : Nat) → Site σ → Prop
  | nil : Burst s 0 s
  | create {started : Nat} {t : Site σ} {c : Creation} {spec : ServiceSpec} (h : Burst s started t)
      (hc : c.AtHead t.node spec)
      (hclock : ∀ l, t.node.roster.self.load = some l → l.at_ ≤ t.now) :
      Burst s (started + (c.step t).1.memoryEnded) (c.step t).2
  | start {started : Nat} {t : Site σ} (spec : ServiceSpec) (h : Burst s started t) :
      Burst s (started + memoryStarted (t.start spec).1) (t.start spec).2
  | pass {started : Nat} {t t' : Site σ} (h : Burst s started t)
      (hself : t'.node.roster.self = t.node.roster.self)
      (hreserved : t'.node.ledger.reserved = t.node.ledger.reserved) : Burst s started t'

/-- What is started is reserved. -/
theorem Ledger.toNat_reserved_start (l : Ledger) (spec : ServiceSpec) (id : Uuid) (now : Instant) :
    (l.start spec id now).2.reserved.toNat =
      l.reserved.toNat + memoryStarted (l.start spec id now).1 := by
  have houtcome := outcome_start l spec id now
  generalize l.start spec id now = p at houtcome
  cases houtcome with
  | invalid | full | taken => rfl
  | started _ hfits => exact toNat_reserved_add hfits

theorem memoryStarted_mapError {ε ε' : Type} (f : ε → ε') (r : Except ε Service) :
    memoryStarted (r.mapError f) = memoryStarted r := by
  cases r <;> rfl

theorem Creation.memoryEnded_ask (channel node : String) (spec : ServiceSpec) (s : Site σ) :
    (ask channel node spec s).memoryEnded = 0 := by
  rw [ask]
  split <;> rfl

/-- What a node chooses, as head, it does: what it starts is reserved. -/
theorem Creation.step_choosing [Transport σ] (t : Site σ) (spec : ServiceSpec) :
    ((Creation.choosing spec).step t).2.node.roster = t.node.roster ∧
    ((Creation.choosing spec).step t).2.node.ledger.reserved.toNat =
      t.node.ledger.reserved.toNat + ((Creation.choosing spec).step t).1.memoryEnded := by
  rw [step]
  cases t.node.choose spec with
  | here =>
    have hstart := Ledger.toNat_reserved_start t.node.ledger spec (.fresh t.drawn) t.now
    rw [follow, startHere, Site.start_eq, memoryEnded, memoryStarted_mapError]
    exact ⟨rfl, hstart⟩
  | remote m | forward m =>
    rw [follow, memoryEnded_ask]
    exact ⟨rfl, rfl⟩

/-- A step of a node as head refreshes its own load or leaves its view as it is, and what it starts
is reserved. -/
theorem Creation.step_atHead [Transport σ] {t : Site σ} {c : Creation} {spec : ServiceSpec}
    (hc : c.AtHead t.node spec) :
    ((c.step t).2.node.roster = t.node.roster ∨
      (c.step t).2.node.roster = (t.node.refreshLoad t.now).roster) ∧
    (c.step t).2.node.ledger.reserved.toNat =
      t.node.ledger.reserved.toNat + (c.step t).1.memoryEnded := by
  cases hc with
  | routing hhead =>
    rw [step, check]
    cases spec.fault? with
    | some fault => exact ⟨.inl rfl, rfl⟩
    | none =>
      dsimp only
      rw [if_pos hhead]
      exact ⟨.inl rfl, rfl⟩
  | placing =>
    obtain ⟨roster, hrefresh, -⟩ := t.node.exists_refreshLoad t.now
    rw [step, check]
    cases spec.fault? with
    | some fault => exact ⟨.inl rfl, rfl⟩
    | none =>
      refine ⟨.inr rfl, ?_⟩
      change (t.node.refreshLoad t.now).ledger.reserved.toNat = t.node.ledger.reserved.toNat + 0
      rw [hrefresh, Nat.add_zero]
  | choosing =>
    obtain ⟨hroster, hreserved⟩ := step_choosing t spec
    exact ⟨.inl hroster, hreserved⟩

/-- If nothing comes between its two steps as head, a node does what it would have decided at
once. -/
theorem Creation.step_placing [Transport σ] (s : Site σ) {spec : ServiceSpec}
    (hfault : spec.fault? = none) :
    let refreshed := (Creation.placing spec).step s
    refreshed.1.step refreshed.2 =
      follow spec { s with node := (s.node.headRoute spec s.now).2 }
        (s.node.headRoute spec s.now).1 := by
  simp only [step, check, hfault]
  rfl

/-- What a burst leaves: the memory of all that was started is reserved, and the load that the node
has stored of itself lies between what it was and what is reserved by now. -/
structure Counts (s : Site σ) (l : Load) (started : Nat) (t : Site σ) : Prop where
  reserved : t.node.ledger.reserved.toNat = s.node.ledger.reserved.toNat + started
  load : ∃ l', t.node.roster.self.load = some l' ∧ l.used.toNat ≤ l'.used.toNat ∧
    l'.used.toNat ≤ max l.used.toNat t.node.ledger.reserved.toNat

theorem Burst.counts [Transport σ] {s t : Site σ} {l : Load} {started : Nat}
    (hload : s.node.roster.self.load = some l) (h : Burst s started t) : Counts s l started t := by
  induction h with
  | nil => exact ⟨rfl, l, hload, Nat.le_refl _, Nat.le_max_left ..⟩
  | @create started t c spec _ hc hclock ih =>
    obtain ⟨hroster, hreserved⟩ := Creation.step_atHead hc
    obtain ⟨l', hl', hleast, hmost⟩ := ih.load
    have hbefore := ih.reserved
    refine ⟨by omega, ?_⟩
    rcases hroster with hroster | hroster
    · exact ⟨l', hroster ▸ hl', hleast, by omega⟩
    · refine ⟨l'.raised t.node.ledger.reserved t.now, ?_, ?_⟩
      · rw [hroster, Node.refreshLoad_eq hl' (hclock l' hl')]
        rfl
      · rw [toNat_used_raised]
        omega
  | @start started t spec _ ih =>
    obtain ⟨l', hl', hleast, hmost⟩ := ih.load
    have hbefore := ih.reserved
    have hreserved : (t.start spec).2.node.ledger.reserved.toNat =
        t.node.ledger.reserved.toNat + memoryStarted (t.start spec).1 :=
      Ledger.toNat_reserved_start ..
    exact ⟨by omega, l', hl', hleast, by omega⟩
  | pass _ hself hreserved ih =>
    obtain ⟨hbefore, l', hl', hbounds⟩ := ih
    exact ⟨hreserved ▸ hbefore, l', hself ▸ hl', hreserved ▸ hbounds⟩

/-- In a burst, the node decides as if its used memory were at least what was reserved before the
burst and what the burst has started. -/
theorem Burst.decidesBy [Transport σ] {s t : Site σ} {l : Load} {started : Nat}
    (hload : s.node.roster.self.load = some l) (h : Burst s started t) :
    ∃ (l' : Load) (used : UInt64), t.node.roster.self.load = some l' ∧
      used.toNat = max l.used.toNat (s.node.ledger.reserved.toNat + started) ∧
      (l'.at_ ≤ t.now →
        ∀ spec, t.node.DecidesBy t.now spec (t.node.roster.withOwnUse l' used)) := by
  obtain ⟨hreserved, l', hl', hleast, hmost⟩ := h.counts hload
  have hused := toNat_used_raised l t.node.ledger.reserved t.now
  refine ⟨l', (l.raised t.node.ledger.reserved t.now).used, hl', by rw [hused, hreserved], ?_⟩
  intro hclock spec
  exact t.node.decidesBy_withOwnUse hl' hclock (by omega) spec

/-- A node that has stored a load of itself decides as head as if its used memory were what is
stored or what is reserved, if that is more.  All that it changes in its view is its own load, which
gets the reserved memory and the time of the decision, if less memory was stored.  The decision is
the same when it is repeated before anything else is stored or reserved.  In a burst, every decision
counts all the memory that the burst has started.  What the node decides it does in two steps, if
nothing else comes between them. -/
theorem head_counts_reserved [Transport σ] {s : Site σ} {l : Load}
    (hload : s.node.roster.self.load = some l) (hclock : l.at_ ≤ s.now) :
    (∀ spec used, used.toNat = max l.used.toNat s.node.ledger.reserved.toNat →
      s.node.DecidesBy s.now spec (s.node.roster.withOwnUse l used)) ∧
    (∀ spec, (s.node.headRoute spec s.now).2 =
      if l.used < s.node.ledger.reserved then
        s.node.withOwnLoad { l with used := s.node.ledger.reserved, at_ := s.now }
      else s.node) ∧
    (∀ spec (n' : Node) now', n'.roster = (s.node.headRoute spec s.now).2.roster →
      n'.ledger.reserved = s.node.ledger.reserved →
      n'.headRoute spec now' = ((s.node.headRoute spec s.now).1, n')) ∧
    (∀ started t, Burst s started t →
      t.node.ledger.reserved.toNat = s.node.ledger.reserved.toNat + started ∧
      ∃ (l' : Load) (used : UInt64), t.node.roster.self.load = some l' ∧
        used.toNat = max l.used.toNat (s.node.ledger.reserved.toNat + started) ∧
        (l'.at_ ≤ t.now →
          ∀ spec, t.node.DecidesBy t.now spec (t.node.roster.withOwnUse l' used))) ∧
    ∀ (t : Site σ) (spec : ServiceSpec), spec.fault? = none →
      let refreshed := (Creation.placing spec).step t
      refreshed.1.step refreshed.2 =
        Creation.follow spec { t with node := (t.node.headRoute spec t.now).2 }
          (t.node.headRoute spec t.now).1 := by
  refine ⟨fun spec used hused => s.node.decidesBy_withOwnUse hload hclock hused spec,
    fun spec => ?_, fun spec n' now' hroster hreserved =>
      Node.headRoute_again hload hclock hroster hreserved now',
    fun started t h => ⟨(h.counts hload).reserved, h.decidesBy hload⟩,
    fun t spec hfault => Creation.step_placing t hfault⟩
  rw [Node.headRoute_snd, Node.refreshLoad_eq hload hclock, Load.raised]
  split
  · rfl
  · exact Node.withOwnLoad_self hload

namespace Site

/-- The load that `laggard` has stored of itself. -/
def staleLoad : Load := ⟨0, 8192, .ofInt 10, .epoch⟩

/-- The head of a cluster of its own, a second after it stored its load: it has started a service
since. -/
def laggard : Site Scripted :=
  let n := (Node.new ⟨"a", "a:1"⟩ 4096 5000).withOwnLoad staleLoad
  { node := { n with ledger := (n.ledger.start { task := "t", memory := 16 } (.fresh 0) .epoch).2 }
    links := .empty, drawn := 1, calls := [], clock := 0, noticed := 0
    now := Instant.epoch.shift 1 }

/-- A burst of one request: the head counts the service that it has started before, starts the
other one too, and both are reserved. -/
theorem laggard_counts :
    let refreshed := ((Creation.placing { task := "u", memory := 4000 }).step laggard).2
    let busy := ((Creation.choosing { task := "u", memory := 4000 }).step refreshed).2
    laggard.node.roster.self.load = some staleLoad ∧ staleLoad.at_ ≤ laggard.now ∧
      Burst laggard 4000 busy ∧ busy.node.ledger.reserved.toNat = 4016 ∧
      (laggard.node.headRoute { task := "u", memory := 4000 } laggard.now).2.roster.self.load =
        some { staleLoad with used := 16, at_ := laggard.now } := by
  intro refreshed busy
  have hload : laggard.node.roster.self.load = some staleLoad := rfl
  have hclock : staleLoad.at_ ≤ laggard.now := by decide +kernel
  have hrefreshed : Burst laggard 0 refreshed := by
    refine (congrArg (Burst laggard · _) ?_).mp (Burst.nil.create .placing ?_)
    · decide +kernel
    · rintro l ⟨rfl⟩
      exact hclock
  have hburst : Burst laggard 4000 busy := by
    refine (congrArg (Burst laggard · _) ?_).mp (hrefreshed.create .choosing ?_)
    · decide +kernel
    · have hnow : (refreshed.node.roster.self.load.all fun l => l.at_ ≤ refreshed.now) = true := by
        decide +kernel
      intro l hl
      rw [hl] at hnow
      exact of_decide_eq_true hnow
  obtain ⟨-, hstored, -, hcounts, -⟩ := head_counts_reserved hload hclock
  refine ⟨hload, hclock, hburst, ?_, ?_⟩
  · rw [(hcounts _ _ hburst).1]
    decide +kernel
  · rw [hstored]
    decide +kernel

/-- Not only the used memory of the node changes: the load also gets a new time. -/
theorem laggard_restamps :
    laggard.node.roster.self.load = some staleLoad ∧ staleLoad.at_ ≤ laggard.now ∧
      (laggard.node.headRoute { task := "u", memory := 16 } laggard.now).2.roster ≠
        laggard.node.roster.withOwnUse staleLoad
          (max staleLoad.used laggard.node.ledger.reserved) := by
  refine ⟨rfl, by decide +kernel, fun h => ?_⟩
  have hself := congrArg (fun r : Roster => r.self.load.map Load.at_) h
  exact absurd hself (by decide +kernel)

end Site

end Fleet

import Fleet.Proofs.Messenger.Accounting

/-!
# Outcomes of queries

Under every run of calls on one messenger the pending table holds exactly the queries that were
entered and not taken out, each of them is taken out once, and who does it decides what the query
returns. A query that was written returns, whatever else goes on: it is enough that every call gets
its turn a few times.

`Stable` properties of records carry the arguments about what a run goes through.
-/

namespace Fleet.Messenger

variable {timeout : Nat} {h : Record} {c : Call} {n : Nat} {id : Uuid} {target : String}

/-! ### What a run keeps -/

/-- What happens to a record in an act. -/
inductive Record.Move (h : Record) : Record → Prop
  /-- No call moves, and queries and outcomes stay as they are. -/
  | quiet {h' : Record}
      (hcalls : ∀ (k : Nat) (d : Call), h.race.calls[k]? = some d → h'.race.calls[k]? = some d)
      (hopened : ∀ e ∈ h.race.opened, e ∈ h'.race.opened)
      (hpending : h'.race.messenger.pending = h.race.messenger.pending)
      (hreplies : h'.race.messenger.replies = h.race.messenger.replies) : Move h h'
  /-- A call takes its step. -/
  | step {n : Nat} {c : Call} (written late : Bool) (hc : h.race.calls[n]? = some c)
      (removals : List Removal) :
      Move h ⟨h.race.advance n (c.step written late h.race.messenger).1
        (c.step written late h.race.messenger).2, removals⟩

theorem Record.move_act (h : Record) (a : Act) : h.Move (h.act a) := by
  have hbegin : ∀ (c : Call) (h' : Record), h'.race = h.race.begin c → h.Move h' := by
    intro c h' hrace
    refine .quiet (fun k d hd => ?_) (fun e he => ?_) (by rw [hrace]; rfl) (by rw [hrace]; rfl)
    · have hk : k < h.race.calls.length := (List.getElem?_eq_some_iff.1 hd).1
      rw [hrace]
      simpa [Race.begin, List.getElem?_append, hk] using hd
    · rw [hrace, Race.opened, Race.begin, List.filterMap_append, List.mem_append]
      exact .inl he
  have hsame : ∀ h' : Record, h'.race.calls = h.race.calls →
      h'.race.messenger.pending = h.race.messenger.pending →
      h'.race.messenger.replies = h.race.messenger.replies → h.Move h' := by
    intro h' hcalls hpending hreplies
    refine .quiet (fun k d hd => hcalls ▸ hd) (fun e he => ?_) hpending hreplies
    rw [Race.opened, hcalls]
    exact he
  cases a with
  | query id found => exact hbegin (.opening id found) _ rfl
  | receive m =>
    by_cases hm : m.isResponse
    · exact hbegin (.completing m) _ (by simp [act, Race.act, hm])
    · refine hsame _ ?_ ?_ ?_ <;> simp [act, Race.act, hm, stamp]
  | complete m => exact hbegin (.completing m) _ rfl
  | fail target => exact hbegin (.failing target) _ rfl
  | go n written late =>
    cases hc : h.race.calls[n]? with
    | none => refine hsame _ ?_ ?_ ?_ <;> simp [act, Race.act, hc]
    | some c =>
      rw [act_go hc]
      exact .step written late hc _

/-- A property of records that every act keeps. -/
def Stable (P : Record → Prop) : Prop := ∀ h h', h.Sound → h.Move h' → P h → P h'

theorem Stable.run {P : Record → Prop} (hP : Stable P) {acts more : List Act}
    (hids : ((acts ++ more).filterMap Act.id?).Nodup) (h : P (.after timeout acts)) :
    P (.after timeout (acts ++ more)) := by
  induction more using List.reverseRecOn with
  | nil => simpa using h
  | append_singleton more a ih =>
    rw [← List.append_assoc, List.filterMap_append] at hids
    have hbefore := (List.nodup_append.1 hids).1
    rw [← List.append_assoc, Record.after_concat]
    exact hP _ _ (Record.sound_after timeout _ hbefore) (Record.move_act _ a) (ih hbefore)

/-- Every one of so many calls takes a step with its timer fired, among whatever else happens. -/
def Turn (size : Nat) (acts : List Act) : Prop :=
  ∀ k < size, ∃ written, Act.go k written true ∈ acts

/-- A call that makes a stable property turn into another one does so when it has its turn. -/
theorem Stable.turn {P Q : Record → Prop} (hP : Stable P) (hQ : Stable Q) {k size : Nat}
    {acts turn : List Act} (hgo : ∀ h written, h.Sound → P h → Q (h.act (.go k written true)))
    (hids : ((acts ++ turn).filterMap Act.id?).Nodup) (hk : k < size) (hturn : Turn size turn)
    (h : P (.after timeout acts)) : Q (.after timeout (acts ++ turn)) := by
  obtain ⟨written, hmem⟩ := hturn k hk
  obtain ⟨before, rest, rfl⟩ := List.append_of_mem hmem
  have hsplit : acts ++ (before ++ .go k written true :: rest) =
      (acts ++ before ++ [.go k written true]) ++ rest := by simp
  rw [hsplit] at hids ⊢
  have hids' : ((acts ++ before).filterMap Act.id?).Nodup := by
    rw [List.append_assoc (acts ++ before), List.filterMap_append] at hids
    exact (List.nodup_append.1 hids).1
  refine hQ.run hids ?_
  rw [Record.after_concat]
  exact hgo _ written (Record.sound_after timeout _ hids') (hP.run hids' h)

/-! ### Queries return -/

/-- How far a query that was written has come. -/
def Call.stage : Call → Nat
  | .waiting .. => 1
  | .expiring .. => 2
  | .overdue .. => 3
  | .returned .. => 4
  | _ => 0

/-- A query has come so far. -/
def Reached (n : Nat) (id : Uuid) (target : String) (stage : Nat) (h : Record) : Prop :=
  ∃ c, h.race.calls[n]? = some c ∧ c.query? = some (id, target) ∧ stage ≤ c.stage

/-- A query has returned, or its outcome is there and it is about to pick it up. -/
def Answered (n : Nat) (id : Uuid) (target : String) (h : Record) : Prop :=
  Reached n id target 4 h ∨
    h.race.calls[n]? = some (.overdue id target) ∧
      ∃ rep, h.race.messenger.replies.get? id = some rep

/-- Another call is about to hand over the outcome of an overdue query, or has done so. -/
def Awaited (n k : Nat) (id : Uuid) (target : String) (h : Record) : Prop :=
  Answered n id target h ∨ h.race.calls[n]? = some (.overdue id target) ∧
    ∃ d rep, h.race.calls[k]? = some d ∧ d.holds = some (id, rep)

private theorem step_pickUp {otherwise : Call} {m : Messenger} :
    (Call.pickUp id target otherwise m).1 = otherwise ∧ (Call.pickUp id target otherwise m).2 = m ∧
        m.replies.get? id = none ∨
      ∃ result, (Call.pickUp id target otherwise m).1 = .returned id target result := by
  rw [Call.pickUp, takeReply]
  cases h : m.replies.get? id with
  | none => exact .inl ⟨rfl, rfl, rfl⟩
  | some r => exact .inr ⟨_, rfl⟩

theorem Call.stage_step (written late : Bool) (m : Messenger) (hstage : 0 < c.stage) :
    (c.step written late m).1.query? = c.query? ∧
      c.stage ≤ (c.step written late m).1.stage := by
  cases c with
  | waiting id target =>
    simp only [step]
    rcases @step_pickUp id target (if late then .expiring id target else .waiting id target) m
      with ⟨h, -⟩ | ⟨result, h⟩
    · rw [h]
      cases late <;> simp [query?, stage]
    · rw [h]
      simp [query?, stage]
  | expiring id target =>
    simp only [step]
    split <;> simp [query?, stage]
  | overdue id target =>
    simp only [step]
    rcases @step_pickUp id target (.overdue id target) m with ⟨h, -⟩ | ⟨result, h⟩ <;>
      simp [h, query?, stage]
  | returned => simp [step, query?, stage]
  | _ => simp [stage] at hstage

theorem stable_reached (n : Nat) (id : Uuid) (target : String) {stage : Nat} (hpos : 0 < stage) :
    Stable (Reached n id target stage) := by
  rintro h h' - hmove ⟨c, hc, hquery, hstage⟩
  cases hmove with
  | quiet hcalls => exact ⟨c, hcalls n c hc, hquery, hstage⟩
  | @step i d written late hd =>
    by_cases hi : n = i
    · subst hi
      rw [hc] at hd
      cases hd
      obtain ⟨hq, hs⟩ := Call.stage_step written late h.race.messenger (c := c) (by omega)
      exact ⟨_, by simp [Race.calls_advance hc], hq.trans hquery, by omega⟩
    · exact ⟨c, by simp [Race.calls_advance hd, hi, hc], hquery, hstage⟩

/-- The outcome of a query stays there under a step of another call. -/
theorem Record.Sound.reply_step (hs : h.Sound) {i : Nat} {d : Call} {rep : Reply}
    (hc : h.race.calls[n]? = some c) (hid : c.id? = some id) (hd : h.race.calls[i]? = some d)
    (hi : n ≠ i) (written late : Bool) (hr : h.race.messenger.replies.get? id = some rep) :
    ∃ rep', (d.step written late h.race.messenger).2.replies.get? id = some rep' := by
  have heffect := d.effect_step written late h.race.messenger
  revert heffect
  generalize (d.step written late h.race.messenger).1 = d'
  generalize (d.step written late h.race.messenger).2 = m'
  intro heffect
  cases heffect with
  | still | enters | leaves | takes => exact ⟨rep, hr⟩
  | @hands _ _ other rep' =>
    simp only [deliver, Table.get?_insert]
    split
    · exact ⟨rep', rfl⟩
    · exact ⟨rep, hr⟩
  | @picks _ other t rep' _ hquery =>
    have hne : id ≠ other := by
      rintro rfl
      exact hi (hs.ids n i c d id hc hd hid (Call.id?_of_query? hquery))
    exact ⟨rep, by simp [Table.get?_erase, hne, hr]⟩

theorem stable_answered (n : Nat) (id : Uuid) (target : String) :
    Stable (Answered n id target) := by
  rintro h h' hs hmove (hret | ⟨hc, rep, hr⟩)
  · exact .inl (stable_reached n id target (by decide) h h' hs hmove hret)
  cases hmove with
  | quiet hcalls _ _ hreplies => exact .inr ⟨hcalls n _ hc, rep, hreplies ▸ hr⟩
  | @step i d written late hd =>
    by_cases hi : n = i
    · subst hi
      rw [hc] at hd
      cases hd
      refine .inl ⟨.returned id target rep.result, ?_, rfl, Nat.le_refl _⟩
      simp [Race.calls_advance hc, Call.step, Call.pickUp, takeReply, hr]
    · refine .inr ⟨by simp [Race.calls_advance hd, hi, hc], ?_⟩
      exact hs.reply_step hc rfl hd hi written late hr

theorem stable_awaited (n k : Nat) (id : Uuid) (target : String) :
    Stable (Awaited n k id target) := by
  rintro h h' hs hmove (hans | ⟨hc, d, rep, hd, hholds⟩)
  · exact .inl (stable_answered n id target h h' hs hmove hans)
  have hnk : n ≠ k := by
    rintro rfl
    rw [hc] at hd
    cases hd
    cases hholds
  cases hmove with
  | quiet hcalls => exact .inr ⟨hcalls n _ hc, d, rep, hcalls k d hd, hholds⟩
  | @step i d' written late hd' =>
    by_cases hni : n = i
    · subst hni
      rw [hc] at hd'
      cases hd'
      obtain ⟨-, hnone, -⟩ := hs.holder k d id rep hd hholds
      refine .inr ⟨?_, d, rep, by simp [Race.calls_advance hc, hnk.symm, hd], hholds⟩
      simp [Race.calls_advance hc, Call.step, Call.pickUp, takeReply, hnone]
    by_cases hki : k = i
    · subst hki
      rw [hd] at hd'
      cases hd'
      refine .inl (.inr ⟨by simp [Race.calls_advance hd, hnk, hc], rep, ?_⟩)
      cases d <;> simp_all [Call.holds, Call.step, deliver, Table.get?_insert]
    · refine .inr ⟨by simp [Race.calls_advance hd', hni, hc], d, rep, ?_, hholds⟩
      simp [Race.calls_advance hd', hki, hd]

/-- The outcome of an overdue query is there, or some call is about to hand it over. -/
theorem exists_awaited (hs : h.Sound) (hn : n < h.race.calls.length)
    (hr : Reached n id target 3 h) :
    ∃ k < h.race.calls.length, Awaited n k id target h := by
  obtain ⟨c, hc, hquery, hstage⟩ := hr
  cases c with
  | overdue id' target' =>
    cases hquery
    have hown : ∀ {i : Nat} {o : Call}, h.race.calls[i]? = some o → o.id? = some id →
        o = .overdue id target := by
      intro i o ho hi
      have hin : i = n := hs.ids i n o _ id ho hc hi rfl
      rw [hin, hc] at ho
      cases ho
      rfl
    obtain ⟨x, hx, rfl⟩ := List.mem_map.1 (hs.past n _ id hc rfl)
    obtain ⟨k, d, -, hk, -, -, hfate⟩ := hs.fate x hx
    cases hfate with
    | itself hcall _ hcases =>
      rcases hcases with ⟨_, rfl⟩ | ⟨_, rfl⟩ <;> cases hown hcall rfl
    | inHand _ hcall hholds => exact ⟨k, hk, .inr ⟨hc, _, _, hcall, hholds⟩⟩
    | ready _ _ _ _ hsome => exact ⟨n, hn, .inl (.inr ⟨hc, _, hsome⟩)⟩
    | pickedUp _ hcall => cases hown hcall rfl
  | returned id' target' result =>
    exact ⟨n, hn, .inl (.inl ⟨_, hc, hquery, Nat.le_refl _⟩)⟩
  | _ => simp [Call.stage] at hstage

theorem Call.stage_late (written : Bool) (m : Messenger) (hpos : 0 < c.stage) (hlt : c.stage < 3) :
    c.stage < (c.step written true m).1.stage := by
  cases c with
  | waiting id target =>
    simp only [step, if_true]
    rcases @step_pickUp id target (.expiring id target) m with ⟨h, -⟩ | ⟨result, h⟩ <;>
      · rw [h]
        simp [stage]
  | expiring id target =>
    simp only [step]
    split <;> simp [stage]
  | overdue | returned => simp [stage] at hlt
  | _ => simp [stage] at hpos

/-- A query whose timer has fired goes on. -/
theorem reached_go {stage : Nat} (hpos : 0 < stage) (hlt : stage < 3) (h : Record)
    (written : Bool) (hr : Reached n id target stage h) :
    Reached n id target (stage + 1) (h.act (.go n written true)) := by
  obtain ⟨c, hc, hquery, hstage⟩ := hr
  have hc0 : 0 < c.stage := by omega
  obtain ⟨hq, hs⟩ := Call.stage_step written true h.race.messenger hc0
  refine ⟨(c.step written true h.race.messenger).1, ?_, hq.trans hquery, ?_⟩
  · rw [Record.act_go hc]
    simp [Race.calls_advance hc]
  · by_cases h3 : c.stage < 3
    · have := Call.stage_late written h.race.messenger hc0 h3
      omega
    · omega

/-- A query whose outcome is there picks it up. -/
theorem answered_go (h : Record) (written : Bool) (hs : h.Sound) (ha : Answered n id target h) :
    Reached n id target 4 (h.act (.go n written true)) := by
  rcases ha with hret | ⟨hc, rep, hr⟩
  · exact stable_reached n id target (by decide) h _ hs (h.move_act _) hret
  · rw [Record.act_go hc]
    refine ⟨.returned id target rep.result, ?_, rfl, Nat.le_refl _⟩
    simp [Race.calls_advance hc, Call.step, Call.pickUp, takeReply, hr]

/-- The call that has taken an overdue query out hands its outcome over. -/
theorem awaited_go {k : Nat} (h : Record) (written : Bool) (hs : h.Sound)
    (ha : Awaited n k id target h) : Answered n id target (h.act (.go k written true)) := by
  rcases ha with hans | ⟨hc, d, rep, hd, hholds⟩
  · exact stable_answered n id target h _ hs (h.move_act _) hans
  · have hnk : n ≠ k := by
      rintro rfl
      rw [hc] at hd
      cases hd
      cases hholds
    rw [Record.act_go hd]
    refine .inr ⟨by simp [Race.calls_advance hd, hnk, hc], rep, ?_⟩
    cases d <;> simp_all [Call.holds, Call.step, deliver, Table.get?_insert]

/-- The number of calls made in a run. -/
def Act.calls (timeout : Nat) (acts : List Act) : Nat :=
  (Record.after timeout acts).race.calls.length

/-- Four turns in a row: the timer fires, the query looks whether it is still pending, whoever has
taken it out hands its outcome over, and the query picks that up. -/
structure Turns (timeout : Nat) (acts more : List Act) where
  first : List Act
  second : List Act
  third : List Act
  fourth : List Act
  more_eq : more = first ++ second ++ third ++ fourth
  firstTurn : Turn (Act.calls timeout acts) first
  secondTurn : Turn (Act.calls timeout (acts ++ first)) second
  thirdTurn : Turn (Act.calls timeout (acts ++ first ++ second)) third
  fourthTurn : Turn (Act.calls timeout (acts ++ first ++ second ++ third)) fourth

theorem lt_calls_of_reached {stage : Nat} {acts : List Act}
    (hr : Reached n id target stage (.after timeout acts)) : n < Act.calls timeout acts := by
  obtain ⟨c, hc, -⟩ := hr
  exact (List.getElem?_eq_some_iff.1 hc).1

/-- A query that was written returns when every call has had four turns, whatever else goes on. -/
theorem returns {acts more : List Act} (hids : ((acts ++ more).filterMap Act.id?).Nodup)
    (hr : Reached n id target 1 (.after timeout acts)) (ht : Turns timeout acts more) :
    ∃ result, (Record.after timeout (acts ++ more)).race.calls[n]? =
      some (.returned id target result) := by
  obtain ⟨first, second, third, fourth, rfl, h1, h2, h3, h4⟩ := ht
  have hnodup : ∀ before rest : List Act, acts ++ (first ++ second ++ third ++ fourth) =
      before ++ rest → (before.filterMap Act.id?).Nodup := by
    intro before rest heq
    rw [heq, List.filterMap_append] at hids
    exact (List.nodup_append.1 hids).1
  have stable := fun {stage : Nat} (hpos : 0 < stage) => stable_reached n id target hpos
  have r1 : Reached n id target 2 (.after timeout (acts ++ first)) :=
    (stable (by decide)).turn (stable (by decide))
      (fun h w _ hr => reached_go (by decide) (by decide) h w hr)
      (hnodup _ (second ++ third ++ fourth) (by simp)) (lt_calls_of_reached hr) h1 hr
  have r2 : Reached n id target 3 (.after timeout (acts ++ first ++ second)) :=
    (stable (by decide)).turn (stable (by decide))
      (fun h w _ hr => reached_go (by decide) (by decide) h w hr)
      (hnodup _ (third ++ fourth) (by simp)) (lt_calls_of_reached r1) h2 r1
  obtain ⟨k, hk, hawaited⟩ := exists_awaited
    (Record.sound_after timeout _ (hnodup (acts ++ first ++ second) (third ++ fourth) (by simp)))
    (lt_calls_of_reached r2) r2
  have r3 : Answered n id target (.after timeout (acts ++ first ++ second ++ third)) :=
    (stable_awaited n k id target).turn (stable_answered n id target)
      (fun h w hs ha => awaited_go h w hs ha) (hnodup _ fourth (by simp)) hk h3 hawaited
  have hn : n < Act.calls timeout (acts ++ first ++ second ++ third) := by
    rcases r3 with hret | ⟨hc, -⟩
    · exact lt_calls_of_reached hret
    · exact (List.getElem?_eq_some_iff.1 hc).1
  have r4 : Reached n id target 4 (.after timeout (acts ++ first ++ second ++ third ++ fourth)) :=
    (stable_answered n id target).turn (stable (by decide)) (fun h w hs ha => answered_go h w hs ha)
      (hnodup _ [] (by simp)) hn h4 r3
  obtain ⟨c, hc, hquery, hstage⟩ := r4
  have hmore : acts ++ (first ++ second ++ third ++ fourth) =
      acts ++ first ++ second ++ third ++ fourth := by simp
  rw [hmore]
  cases c with
  | returned id' target' result =>
    cases hquery
    exact ⟨result, hc⟩
  | _ => simp [Call.stage] at hstage

/-! ### Losing a node -/

theorem Record.Sound.opened_unique (hs : h.Sound) {target' : String}
    (ho : (id, target) ∈ h.race.opened) (ho' : (id, target') ∈ h.race.opened) :
    target = target' := by
  obtain ⟨n, c, hc, hq⟩ := Race.mem_opened.1 ho
  obtain ⟨n', c', hc', hq'⟩ := Race.mem_opened.1 ho'
  obtain rfl := hs.ids n n' c c' id hc hc' (Call.id?_of_query? hq) (Call.id?_of_query? hq')
  rw [hc] at hc'
  cases hc'
  rw [hq] at hq'
  cases hq'
  rfl

theorem Record.Sound.nodup_opened (hs : h.Sound) : h.race.opened.Nodup := by
  rw [Race.opened, List.Nodup, List.pairwise_filterMap, List.pairwise_iff_getElem]
  rintro i j hi hj hlt ⟨id, target⟩ hq ⟨id', target'⟩ hq' heq
  cases heq
  have hij : i = j := hs.ids i j _ _ id (List.getElem?_eq_getElem hi)
    (List.getElem?_eq_getElem hj) (Call.id?_of_query? hq) (Call.id?_of_query? hq')
  omega

/-- A query that was entered does not become pending again. -/
theorem Record.Sound.pending_step (hs : h.Sound) (hc : h.race.calls[n]? = some c)
    (ho : (id, target) ∈ h.race.opened) (written late : Bool) {t : String}
    (hp : (c.step written late h.race.messenger).2.pending.get? id = some t) :
    h.race.messenger.pending.get? id = some t := by
  have heffect := c.effect_step written late h.race.messenger
  revert heffect hp
  generalize (c.step written late h.race.messenger).1 = c'
  generalize (c.step written late h.race.messenger).2 = m'
  intro hp heffect
  cases heffect with
  | still | hands | picks => exact hp
  | enters other target' =>
    have hne : id ≠ other := by
      rintro rfl
      exact hs.not_opened_of_opening hc ho
    simpa [openQuery, Table.get?_insert, hne] using hp
  | leaves | takes =>
    simp only [dropQuery, Table.get?_erase] at hp
    split at hp
    · cases hp
    · exact hp

/-- A query that a call for a lost node is to take out: if it is still pending, the call has yet to
look, or has seen it. -/
def Doomed (n : Nat) (id : Uuid) (target : String) (h : Record) : Prop :=
  (id, target) ∈ h.race.opened ∧ ∃ c, h.race.calls[n]? = some c ∧
    (h.race.messenger.pending.get? id = some target →
      c = .failing target ∨ (id, target) ∈ c.seen)

private theorem doomed_step (written late : Bool) {m : Messenger}
    (hp : (c.step written late m).2.pending.get? id = some target)
    (hbefore : m.pending.get? id = some target)
    (hseen : c = .failing target ∨ (id, target) ∈ c.seen) :
    (c.step written late m).1 = .failing target ∨
      (id, target) ∈ (c.step written late m).1.seen := by
  rcases hseen with rfl | hseen
  · exact .inr (by simpa [Call.step, Call.seen] using mem_waitingFor.2 hbefore)
  refine .inr ?_
  cases c with
  | sweeping t ids count =>
    obtain ⟨other, hmem, heq⟩ := List.mem_map.1 hseen
    cases heq
    cases ids with
    | nil => cases hmem
    | cons first rest =>
      have hne : id ≠ first := by
        rintro rfl
        have hcontains : m.pending.contains id = true := Table.contains_iff.2 ⟨_, hbefore⟩
        simp [Call.step, hcontains, dropQuery, Table.get?_erase] at hp
      have hrest : id ∈ rest := (List.mem_cons.1 hmem).resolve_left hne
      simp only [Call.step]
      split <;> simpa [Call.seen] using hrest
  | dropping => simpa [Call.step, Call.seen] using hseen
  | _ => cases hseen

theorem stable_doomed (n : Nat) (id : Uuid) (target : String) : Stable (Doomed n id target) := by
  rintro h h' hs hmove ⟨hopened, c, hc, hseen⟩
  cases hmove with
  | quiet hcalls hopened' hpending =>
    exact ⟨hopened' _ hopened, c, hcalls n c hc, hpending ▸ hseen⟩
  | @step i d written late hd removals =>
    have heffect := d.effect_step written late h.race.messenger
    refine ⟨Race.opened_advance_of hd (fun e hq => heffect.query? hq) hopened, ?_⟩
    by_cases hi : n = i
    · subst hi
      rw [hc] at hd
      cases hd
      refine ⟨(c.step written late h.race.messenger).1, by simp [Race.calls_advance hc],
        fun hp => ?_⟩
      have hbefore := hs.pending_step hc hopened written late hp
      exact doomed_step written late hp hbefore (hseen hbefore)
    · refine ⟨c, by simp [Race.calls_advance hd, hi, hc], fun hp => hseen ?_⟩
      exact hs.pending_step hd hopened written late hp

/-- When a call for a lost node has ended, nothing that waited for it when the call had yet to look
is pending. -/
theorem swept_all {acts more : List Act} {count : Nat}
    (hids : ((acts ++ more).filterMap Act.id?).Nodup)
    (hfailing : (Record.after timeout acts).race.calls[n]? = some (.failing target))
    (hswept : (Record.after timeout (acts ++ more)).race.calls[n]? = some (.swept target count))
    (hp : (Record.after timeout acts).race.messenger.pending.get? id = some target) :
    (Record.after timeout (acts ++ more)).race.messenger.pending.get? id = none := by
  have hs := Record.sound_after timeout acts (List.Nodup.of_append_left
    (by simpa [List.filterMap_append] using hids))
  have hs' := Record.sound_after timeout _ hids
  have hdoomed : Doomed n id target (.after timeout acts) :=
    ⟨((hs.pending id target).1 hp).1, _, hfailing, fun _ => .inl rfl⟩
  obtain ⟨hopened, c, hc, hseen⟩ := (stable_doomed n id target).run hids hdoomed
  rw [hswept] at hc
  cases hc
  rw [Option.eq_none_iff_forall_ne_some]
  intro t ht
  obtain rfl := hs'.opened_unique hopened ((hs'.pending id t).1 ht).1
  rcases hseen ht with h | h <;> cases h

private theorem foldl_gone (ids : List Uuid) (m : Messenger) (id : Uuid) :
    (ids.foldl (fun m id => (m.dropQuery id).deliver id .gone) m).pending.get? id =
        (if id ∈ ids then none else m.pending.get? id) ∧
      (ids.foldl (fun m id => (m.dropQuery id).deliver id .gone) m).replies.get? id =
        (if id ∈ ids then some .gone else m.replies.get? id) := by
  induction ids generalizing m with
  | nil => simp
  | cons first rest ih =>
    rw [List.foldl_cons]
    obtain ⟨hp, hr⟩ := ih ((m.dropQuery first).deliver first .gone)
    rw [hp, hr]
    by_cases h : id = first <;>
      simp [h, dropQuery, deliver, Table.get?_erase, Table.get?_insert]

/-- Failing the queries of a lost node in one go resolves what waits for it, counts that, and leaves
everything else as it is. -/
theorem failPending_spec (m : Messenger) (target : String) :
    (m.failPending target).1 = (m.pending.entries.filter fun e => e.2 = target).length ∧
      ∀ id, (m.failPending target).2.pending.get? id =
          (if m.pending.get? id = some target then none else m.pending.get? id) ∧
        (m.failPending target).2.replies.get? id =
          (if m.pending.get? id = some target then some .gone else m.replies.get? id) := by
  refine ⟨by simp [failPending, waitingFor], fun id => ?_⟩
  have hfold := foldl_gone (m.waitingFor target) m id
  simpa only [failPending, mem_waitingFor] using hfold

/-! ### Who decides -/

/-- A query that was written and has returned was taken out by a response, by its own timer or for
the loss of its target, and returns accordingly. -/
theorem Record.Sound.exists_cause (hs : h.Sound) {result : Option Message}
    (hc : h.race.calls[n]? = some (.returned id target result)) :
    ∃ k c, ⟨id, some (k, c)⟩ ∈ h.removals ∧
      ((∃ r, c = .completing r ∧ result = some r) ∨
        result = none ∧ (k = n ∧ c = .expiring id target ∨
          ∃ ids count, c = .sweeping target (id :: ids) count)) := by
  have hown : ∀ {i : Nat} {o : Call}, h.race.calls[i]? = some o → o.id? = some id →
      i = n ∧ o = .returned id target result := by
    intro i o ho hi
    obtain rfl := hs.ids i n o _ id ho hc hi rfl
    rw [hc] at ho
    cases ho
    exact ⟨rfl, rfl⟩
  have hopened : (id, target) ∈ h.race.opened := Race.mem_opened.2 ⟨n, _, hc, rfl⟩
  obtain ⟨⟨id', caller⟩, hx, hid⟩ := List.mem_map.1 (hs.past n _ id hc rfl)
  obtain ⟨k, d, hcaller, -, htakes, hseen, hfate⟩ := hs.fate _ hx
  dsimp only at hid hcaller htakes hfate
  subst hid hcaller
  refine ⟨k, d, hx, ?_⟩
  cases hfate with
  | itself hcall _ hcases =>
    rcases hcases with ⟨_, rfl⟩ | ⟨rfl, rfl⟩
    · cases (hown hcall rfl).2
    · obtain ⟨rfl, heq⟩ := hown hcall rfl
      cases heq
      exact .inr ⟨rfl, .inl ⟨rfl, rfl⟩⟩
  | inHand _ _ _ ho hquery hopen | ready _ ho hquery hopen =>
    obtain ⟨-, rfl⟩ := hown ho (Call.id?_of_query? hquery)
    cases hopen
  | pickedUp hrep ho =>
    cases (hown ho rfl).2
    cases d with
    | completing r =>
      cases hrep
      exact .inl ⟨r, rfl, rfl⟩
    | sweeping t ids count =>
      cases hrep
      cases ids with
      | nil => cases htakes
      | cons first ids =>
        cases htakes
        have hopened' : (id', t) ∈ h.race.opened := hseen _ (by simp [Call.seen])
        obtain rfl := hs.opened_unique hopened hopened'
        exact .inr ⟨rfl, .inr ⟨ids, count, rfl⟩⟩
    | _ => cases hrep

/-- What a run owes its queries. -/
structure Accounted (timeout : Nat) (acts : List Act) (h : Record) : Prop where
  /-- The pending table holds the queries that were entered and not taken out. -/
  pending : ∀ id target, h.race.messenger.pending.get? id = some target ↔
    (id, target) ∈ h.race.opened ∧ id ∉ h.resolved
  size : h.race.messenger.pending.size =
    (h.race.opened.filter fun q => q.1 ∉ h.resolved).length
  /-- No query is taken out twice. -/
  once : h.resolved.Nodup
  /-- A query that was written and has returned was taken out. -/
  resolved : ∀ (n : Nat) id target result,
    h.race.calls[n]? = some (.returned id target result) → id ∈ h.resolved
  /-- It returns a response exactly if that response took it out. -/
  response : ∀ (n : Nat) id target result,
    h.race.calls[n]? = some (.returned id target result) → ∀ r, result = some r ↔
      ∃ k, ⟨id, some (k, .completing r)⟩ ∈ h.removals
  /-- It returns none exactly if its timer or the loss of its target took it out. -/
  silence : ∀ (n : Nat) id target result,
    h.race.calls[n]? = some (.returned id target result) → (result = none ↔
      ⟨id, some (n, .expiring id target)⟩ ∈ h.removals ∨
      ∃ k ids count, ⟨id, some (k, .sweeping target (id :: ids) count)⟩ ∈ h.removals)
  /-- A query that was written returns once every call has had a few turns. -/
  returns : ∀ (n : Nat) id target, Reached n id target 1 h → ∀ more,
    ((acts ++ more).filterMap Act.id?).Nodup → Turns timeout acts more →
      ∃ result, (Record.after timeout (acts ++ more)).race.calls[n]? =
        some (.returned id target result)
  /-- A response whose id is not pending is refused and changes nothing. -/
  unknown : ∀ m id, m.correlation = some id → h.race.messenger.pending.get? id = none →
    h.race.messenger.complete m = .error (.unknownCorrelation id) ∧
      ∀ (n : Nat) written late, h.race.calls[n]? = some (.completing m) →
        h.act (.go n written late) =
          ⟨h.race.advance n (.refused (.unknownCorrelation id)) h.race.messenger, h.removals⟩
  /-- A call for a lost node takes out only what waits for that node. -/
  sweepOnly : ∀ x ∈ h.removals, ∀ n target ids count,
    x.caller = some (n, .sweeping target ids count) → (x.id, target) ∈ h.race.opened
  /-- It takes out all that waited for the node when it had yet to look. -/
  sweepAll : ∀ (n : Nat) id target, h.race.calls[n]? = some (.failing target) →
    h.race.messenger.pending.get? id = some target → ∀ more count,
      ((acts ++ more).filterMap Act.id?).Nodup →
      (Record.after timeout (acts ++ more)).race.calls[n]? = some (.swept target count) →
        (Record.after timeout (acts ++ more)).race.messenger.pending.get? id = none
  /-- It returns the number of queries that it has taken out. -/
  sweepCount : ∀ (n : Nat) target count, h.race.calls[n]? = some (.swept target count) →
    (h.removals.filter fun x => x.caller.map Prod.fst = some n).length = count
  /-- With nothing in between, it resolves exactly what waits for the node. -/
  fail : ∀ target,
    (h.race.messenger.failPending target).1 =
        (h.race.messenger.pending.entries.filter fun e => e.2 = target).length ∧
      ∀ id, (h.race.messenger.failPending target).2.pending.get? id =
          (if h.race.messenger.pending.get? id = some target then none
            else h.race.messenger.pending.get? id) ∧
        (h.race.messenger.failPending target).2.replies.get? id =
          (if h.race.messenger.pending.get? id = some target then some .gone
            else h.race.messenger.replies.get? id)

/-- Every run of calls on one messenger accounts for its queries: any number of queries under
different ids, messages of all kinds coming in, lost nodes and timers, in any order. -/
theorem queries_accounted (timeout : Nat) (acts : List Act)
    (hids : (acts.filterMap Act.id?).Nodup) : Accounted timeout acts (.after timeout acts) := by
  have hs := Record.sound_after timeout acts hids
  generalize hh : Record.after timeout acts = h at hs
  have hone : ∀ {id k c k' c'}, (⟨id, some (k, c)⟩ : Removal) ∈ h.removals →
      ⟨id, some (k', c')⟩ ∈ h.removals → c = c' := by
    intro id k c k' c' hx hy
    cases hs.eq_of_id_eq hx hy rfl
    rfl
  refine ⟨hs.pending, ?size, hs.once, fun n id _ _ hc => hs.past n _ id hc rfl, ?response, ?silence,
    ?returns, ?unknown, ?sweepOnly, ?sweepAll, fun n _ count hc => hs.taken n _ count hc rfl,
    failPending_spec h.race.messenger⟩
  case size =>
    refine (Table.entries_perm (hs.nodup_opened.filter _) fun id target => ?_).length_eq
    rw [hs.pending id target]
    simp
  case response =>
    intro n id target result hc r
    obtain ⟨k, c, hmem, hcause⟩ := hs.exists_cause hc
    constructor
    · rintro rfl
      rcases hcause with ⟨r', rfl, hr⟩ | ⟨hr, -⟩
      · cases hr
        exact ⟨k, hmem⟩
      · cases hr
    · rintro ⟨k', hmem'⟩
      have heq := hone hmem hmem'
      rcases hcause with ⟨r', rfl, hr⟩ | ⟨-, ⟨-, rfl⟩ | ⟨_, _, rfl⟩⟩ <;> cases heq
      exact hr
  case silence =>
    intro n id target result hc
    obtain ⟨k, c, hmem, hcause⟩ := hs.exists_cause hc
    constructor
    · rintro rfl
      rcases hcause with ⟨r', -, hr⟩ | ⟨-, ⟨rfl, rfl⟩ | ⟨ids, count, rfl⟩⟩
      · cases hr
      · exact .inl hmem
      · exact .inr ⟨k, ids, count, hmem⟩
    · intro hor
      rcases hcause with ⟨r', rfl, -⟩ | ⟨hr, -⟩
      · rcases hor with hmem' | ⟨_, _, _, hmem'⟩ <;> cases hone hmem hmem'
      · exact hr
  case returns =>
    intro n id target hr more hids' hturns
    exact Messenger.returns hids' (hh ▸ hr) hturns
  case unknown =>
    intro m id hm hp
    have hno : h.race.messenger.pending.contains id = false := Table.contains_eq_false_iff.2 hp
    have hrefused : h.race.messenger.complete m = .error (.unknownCorrelation id) := by
      simp [complete, hm, hno]
    refine ⟨hrefused, fun n written late hc => ?_⟩
    rw [Record.act_go hc, Call.step_completing_refused hrefused, gone_of_pending rfl]
    simp
  case sweepOnly =>
    intro x hx n target ids count hcaller
    obtain ⟨k, c, hcaller', -, htakes, hseen, -⟩ := hs.fate x hx
    rw [hcaller] at hcaller'
    cases hcaller'
    cases ids with
    | nil => cases htakes
    | cons first rest =>
      cases htakes
      exact hseen _ (by simp [Call.seen])
  case sweepAll =>
    intro n id target hc hp more count hids' hswept
    exact swept_all hids' (hh ▸ hc) hswept (hh ▸ hp)

/-- The response to a query that comes while its timer fires. -/
def lateResponse : Message :=
  { channel := "echo", sender := "b", targets := [.node "a"], content := [],
    correlation := some (.fresh 0) }

/-- The response takes the query out just before the timer does, and is handed over after that. -/
def lateRun : List Act :=
  [.query (.fresh 0) ["b"], .go 0 true false, .go 0 true false, .receive lateResponse,
    .go 0 true true, .go 1 true false, .go 0 true true, .go 1 true false, .go 0 true true]

theorem late_response_accounted : (lateRun.filterMap Act.id?).Nodup ∧
    Accounted 5000 lateRun (.after 5000 lateRun) ∧
      (Record.after 5000 lateRun).race.calls[0]? =
        some (.returned (.fresh 0) "b" (some lateResponse)) :=
  ⟨by decide, queries_accounted 5000 lateRun (by decide), by rfl⟩

end Fleet.Messenger

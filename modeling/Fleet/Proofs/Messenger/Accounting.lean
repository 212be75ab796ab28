import Fleet.Proofs.Messenger.Race
import Mathlib.Data.List.Nodup

/-!
# Every query is accounted for

In a race on a messenger every query that was entered into the pending table is either still there
or was taken out by exactly one call, and that call decides what the query returns: a response that
was handed in, or nothing if its timer fired or its target was lost. `Record.Sound` is the invariant
that every act preserves; `Fate` says where the outcome of a query that was taken out is by now.
-/

namespace Fleet.Messenger

variable {timeout : Nat} {r : Race} {h : Record} {m m' : Messenger} {c c' : Call} {n : Nat}
  {id : Uuid} {target : String}

namespace Race

/-- The race after a call has gone from one place to another. -/
def advance (r : Race) (n : Nat) (c : Call) (m : Messenger) : Race := ⟨m, r.calls.set n c⟩

theorem act_go (hc : r.calls[n]? = some c) (written late : Bool) :
    r.act (.go n written late) =
      r.advance n (c.step written late r.messenger).1 (c.step written late r.messenger).2 := by
  simp only [act, hc, advance]

@[simp] theorem messenger_advance : (r.advance n c m).messenger = m := rfl

@[simp] theorem length_advance : (r.advance n c m).calls.length = r.calls.length := by
  simp [advance]

theorem calls_advance (hc : r.calls[n]? = some c) (k : Nat) :
    (r.advance n c' m).calls[k]? = if k = n then some c' else r.calls[k]? := by
  have hn : n < r.calls.length := (List.getElem?_eq_some_iff.1 hc).1
  simp only [advance, List.getElem?_set, hn, if_true, eq_comm]

/-- A call after a step is the one that has taken it, or it was there before. -/
theorem calls_advance_cases {k : Nat} {d : Call} (hc : r.calls[n]? = some c)
    (hd : (r.advance n c' m).calls[k]? = some d) :
    k = n ∧ d = c' ∨ k ≠ n ∧ r.calls[k]? = some d := by
  rw [calls_advance hc] at hd
  by_cases hk : k = n
  · rw [if_pos hk] at hd
    exact .inl ⟨hk, (Option.some.inj hd).symm⟩
  · rw [if_neg hk] at hd
    exact .inr ⟨hk, hd⟩

/-- A step gives no call an id if it gives none to its own. -/
theorem exists_of_id?_advance {k : Nat} {d : Call} (hc : r.calls[n]? = some c)
    (hid : ∀ id, c'.id? = some id → c.id? = some id)
    (hd : (r.advance n c' m).calls[k]? = some d) (hi : d.id? = some id) :
    ∃ e, r.calls[k]? = some e ∧ e.id? = some id := by
  rcases calls_advance_cases hc hd with ⟨rfl, rfl⟩ | ⟨-, hd⟩
  · exact ⟨c, hc, hid id hi⟩
  · exact ⟨d, hd, hi⟩

/-- A call after a new one has begun is the new one, or it was there before. -/
theorem calls_begin_cases {k : Nat} {d : Call} (hd : (r.begin c).calls[k]? = some d) :
    r.calls[k]? = some d ∨ k = r.calls.length ∧ d = c := by
  rw [begin, List.getElem?_append] at hd
  split at hd
  · exact .inl hd
  · next hk =>
    obtain ⟨hi, rfl⟩ := List.getElem?_eq_some_iff.1 hd
    rw [List.length_singleton] at hi
    exact .inr ⟨by omega, by simp⟩

theorem calls_begin_of {k : Nat} {d : Call} (hd : r.calls[k]? = some d) :
    (r.begin c).calls[k]? = some d := by
  have hk : k < r.calls.length := (List.getElem?_eq_some_iff.1 hd).1
  rw [begin, List.getElem?_append_left hk, hd]

theorem opened_begin (hquery : c.query? = none) : (r.begin c).opened = r.opened := by
  simp [opened, begin, hquery]

theorem mem_opened : (id, target) ∈ r.opened ↔
    ∃ (n : Nat) (c : Call), r.calls[n]? = some c ∧ c.query? = some (id, target) := by
  rw [opened, List.mem_filterMap]
  constructor
  · rintro ⟨c, hc, hq⟩
    obtain ⟨n, hn⟩ := List.mem_iff_getElem?.1 hc
    exact ⟨n, c, hn, hq⟩
  · rintro ⟨n, c, hn, hq⟩
    exact ⟨c, List.mem_of_getElem? hn, hq⟩

theorem mem_opened_advance (hc : r.calls[n]? = some c) (hquery : c'.query? = c.query?) :
    (id, target) ∈ (r.advance n c' m).opened ↔ (id, target) ∈ r.opened := by
  simp only [mem_opened, calls_advance hc]
  constructor
  · rintro ⟨k, o, ho, hq⟩
    split at ho
    · cases ho
      exact ⟨n, c, hc, hquery ▸ hq⟩
    · exact ⟨k, o, ho, hq⟩
  · rintro ⟨k, o, ho, hq⟩
    by_cases hk : k = n
    · subst hk
      rw [hc] at ho
      cases ho
      exact ⟨k, c', by simp, hquery.trans hq⟩
    · exact ⟨k, o, by simp [hk, ho], hq⟩

/-- A query that was entered stays so. -/
theorem opened_advance_of (hc : r.calls[n]? = some c)
    (hkeep : ∀ e, c.query? = some e → c'.query? = some e) (ho : (id, target) ∈ r.opened) :
    (id, target) ∈ (r.advance n c' m).opened := by
  obtain ⟨k, o, hk, hq⟩ := mem_opened.1 ho
  refine mem_opened.2 ?_
  simp only [calls_advance hc]
  by_cases hkn : k = n
  · subst hkn
    rw [hc] at hk
    cases hk
    exact ⟨k, c', by simp, hkeep _ hq⟩
  · exact ⟨k, o, by simp [hkn, hk], hq⟩

theorem mem_opened_enters {other : Uuid} {t : String} {found : List String}
    (hc : r.calls[n]? = some (.opening id found)) :
    (other, t) ∈ (r.advance n (.writing id target) m).opened ↔
      (other = id ∧ t = target) ∨ (other, t) ∈ r.opened := by
  simp only [mem_opened, calls_advance hc]
  constructor
  · rintro ⟨k, o, ho, hq⟩
    split at ho
    · cases ho
      cases hq
      exact .inl ⟨rfl, rfl⟩
    · exact .inr ⟨k, o, ho, hq⟩
  · rintro (⟨rfl, rfl⟩ | ⟨k, o, ho, hq⟩)
    · exact ⟨n, .writing other t, by simp, rfl⟩
    · have hk : k ≠ n := by
        rintro rfl
        rw [hc] at ho
        cases ho
        cases hq
      exact ⟨k, o, by simp [hk, ho], hq⟩

end Race

theorem Call.id?_of_query? (h : c.query? = some (id, target)) : c.id? = some id := by
  cases c <;> simp_all [Call.id?, Call.query?]

theorem Call.id?_of_holds {rep : Reply} (h : c.holds = some (id, rep)) : c.id? = none := by
  cases c <;> simp_all [holds, id?, query?]

theorem Call.query?_of_id? (h : c.id? = none) : c.query? = none := by
  cases c <;> simp_all [id?, query?]

theorem Call.past_of_id? (h : c.id? = none) : c.past = none := by
  cases c <;> simp_all [id?, query?, past]

theorem Call.not_hasReturned (h : c.finished = false) : c.hasReturned = false := by
  cases c <;> simp_all [finished, hasReturned]

/-- Where the outcome of a query that was taken out is. -/
inductive Fate (r : Race) (id : Uuid) (k : Nat) (c : Call) : Prop
  /-- The query has taken itself out and returned. -/
  | itself {o : Call} {target : String} (hcall : r.calls[k]? = some o)
      (hreply : r.messenger.replies.get? id = none)
      (hout : c = .withdrawing id target ∧ o = .unwritten id target ∨
        c = .expiring id target ∧ o = .returned id target none)
  /-- The call that has taken it out is about to hand the outcome over. -/
  | inHand {d o : Call} {n : Nat} {target : String} {rep : Reply} (hrep : c.outcome = some rep)
      (hcall : r.calls[k]? = some d) (hholds : d.holds = some (id, rep))
      (howner : r.calls[n]? = some o) (hquery : o.query? = some (id, target))
      (hopen : o.hasReturned = false)
      (hreply : r.messenger.replies.get? id = none)
  /-- The outcome is there. -/
  | ready {o : Call} {n : Nat} {target : String} {rep : Reply} (hrep : c.outcome = some rep)
      (howner : r.calls[n]? = some o) (hquery : o.query? = some (id, target))
      (hopen : o.hasReturned = false)
      (hreply : r.messenger.replies.get? id = some rep)
  /-- The query has picked it up. -/
  | pickedUp {n : Nat} {target : String} {rep : Reply} (hrep : c.outcome = some rep)
      (howner : r.calls[n]? = some (.returned id target rep.result))
      (hreply : r.messenger.replies.get? id = none)

/-- The outcome of a query stays where it is as long as nobody touches it. -/
theorem Fate.frame {r' : Race} {k : Nat} (hf : Fate r id k c)
    (hreply : r'.messenger.replies.get? id = r.messenger.replies.get? id)
    (howner : ∀ (n : Nat) (o : Call), r.calls[n]? = some o → o.id? = some id →
      ∃ o', r'.calls[n]? = some o' ∧ o'.query? = o.query? ∧ (o.finished → o' = o) ∧
        (o.finished = false → o'.hasReturned = false))
    (hholder : ∀ (n : Nat) (d : Call) (rep : Reply), r.calls[n]? = some d →
      d.holds = some (id, rep) → r'.calls[n]? = some d) : Fate r' id k c := by
  have hopen : ∀ o o' : Call, o.hasReturned = false → (o.finished → o' = o) →
      (o.finished = false → o'.hasReturned = false) → o'.hasReturned = false := by
    intro o o' ho hsame hopen
    cases hfinished : o.finished with
    | true => rw [hsame hfinished, ho]
    | false => exact hopen hfinished
  cases hf with
  | @itself o target hcall hnone hout =>
    have hid : o.id? = some id := by
      rcases hout with ⟨_, rfl⟩ | ⟨_, rfl⟩ <;> rfl
    have hfinished : o.finished = true := by
      rcases hout with ⟨_, rfl⟩ | ⟨_, rfl⟩ <;> rfl
    obtain ⟨o', ho', -, hsame, -⟩ := howner k o hcall hid
    exact .itself (hsame hfinished ▸ ho') (hreply.trans hnone) hout
  | inHand hrep hcall hholds hown hquery hret hnone =>
    obtain ⟨o', ho', hq', hsame, hnot⟩ := howner _ _ hown (Call.id?_of_query? hquery)
    exact .inHand hrep (hholder _ _ _ hcall hholds) hholds ho' (hq'.trans hquery)
      (hopen _ _ hret hsame hnot) (hreply.trans hnone)
  | ready hrep hown hquery hret hsome =>
    obtain ⟨o', ho', hq', hsame, hnot⟩ := howner _ _ hown (Call.id?_of_query? hquery)
    exact .ready hrep ho' (hq'.trans hquery) (hopen _ _ hret hsame hnot) (hreply.trans hsome)
  | pickedUp hrep hown hnone =>
    obtain ⟨o', ho', -, hsame, -⟩ := howner _ _ hown rfl
    exact .pickedUp hrep (hsame rfl ▸ ho') (hreply.trans hnone)

/-- A step of one call does not touch the outcomes of other queries. -/
theorem Fate.other {k : Nat} {d : Call} (hc : r.calls[n]? = some c) (hid : c.id? ≠ some id)
    (hheld : ∀ rep, c.holds ≠ some (id, rep))
    (hreply : m.replies.get? id = r.messenger.replies.get? id) (hf : Fate r id k d) :
    Fate (r.advance n c' m) id k d := by
  have hne : ∀ (i : Nat) (o : Call), r.calls[i]? = some o →
      (o.id? = some id ∨ ∃ rep, o.holds = some (id, rep)) → i ≠ n := by
    rintro i o ho hor rfl
    rw [hc] at ho
    cases ho
    rcases hor with h | ⟨rep, h⟩
    · exact hid h
    · exact hheld rep h
  refine hf.frame hreply (fun i o ho hi => ?_) (fun i o rep ho hr => ?_)
  · refine ⟨o, ?_, rfl, fun _ => rfl, Call.not_hasReturned⟩
    simp [Race.calls_advance hc, hne i o ho (.inl hi), ho]
  · simp [Race.calls_advance hc, hne i o ho (.inr ⟨rep, hr⟩), ho]

/-- What holds of every record: each query that was entered is pending or was taken out once, and
the outcome of a query taken out is in one place. -/
structure Record.Sound (h : Record) : Prop where
  /-- No two queries share an id. -/
  ids : ∀ (n n' : Nat) (c c' : Call) (id : Uuid), h.race.calls[n]? = some c →
    h.race.calls[n']? = some c' → c.id? = some id → c'.id? = some id → n = n'
  pending : ∀ id target, h.race.messenger.pending.get? id = some target ↔
    (id, target) ∈ h.race.opened ∧ id ∉ h.resolved
  once : h.resolved.Nodup
  fate : ∀ x ∈ h.removals, ∃ k c, x.caller = some (k, c) ∧ k < h.race.calls.length ∧
    c.takes = some x.id ∧ (∀ e ∈ c.seen, e ∈ h.race.opened) ∧ Fate h.race x.id k c
  holder : ∀ (k : Nat) (c : Call) (id : Uuid) (rep : Reply), h.race.calls[k]? = some c →
    c.holds = some (id, rep) →
      (∃ c₀, ⟨id, some (k, c₀)⟩ ∈ h.removals ∧ c₀.outcome = some rep) ∧
      h.race.messenger.replies.get? id = none ∧
      ∀ (n : Nat) (o : Call), h.race.calls[n]? = some o → o.id? = some id → o.hasReturned = false
  reply : ∀ id rep, h.race.messenger.replies.get? id = some rep → id ∈ h.resolved
  past : ∀ (n : Nat) (c : Call) (id : Uuid), h.race.calls[n]? = some c → c.past = some id →
    id ∈ h.resolved
  seen : ∀ (n : Nat) (c : Call) (e : Uuid × String), h.race.calls[n]? = some c → e ∈ c.seen →
    e ∈ h.race.opened
  taken : ∀ (k : Nat) (c : Call) (count : Nat), h.race.calls[k]? = some c →
    c.taken = some count →
      (h.removals.filter fun x => x.caller.map Prod.fst = some k).length = count

namespace Call

theorem query?_of_past (h : c.past = some id) : ∃ target, c.query? = some (id, target) := by
  cases c <;> simp_all [past, query?]

theorem past_of_hasReturned (h : c.hasReturned) : ∃ id, c.past = some id ∧ c.id? = some id := by
  cases c <;> simp_all [past, hasReturned, id?, query?]

end Call

namespace Record.Sound

theorem not_resolved (hs : h.Sound) (hp : h.race.messenger.pending.get? id = some target) :
    id ∉ h.resolved := ((hs.pending id target).1 hp).2

/-- A query that is pending has no outcome yet. -/
theorem replies_of_pending (hs : h.Sound) (hp : h.race.messenger.pending.get? id = some target) :
    h.race.messenger.replies.get? id = none := by
  rw [Option.eq_none_iff_forall_ne_some]
  exact fun rep hrep => hs.not_resolved hp (hs.reply id rep hrep)

/-- A query that has returned is out of the pending table. -/
theorem resolved_of_hasReturned (hs : h.Sound) (hc : h.race.calls[n]? = some c)
    (hid : c.id? = some id) (hr : c.hasReturned) : id ∈ h.resolved := by
  obtain ⟨id', hpast, hid'⟩ := Call.past_of_hasReturned hr
  rw [hid] at hid'
  cases hid'
  exact hs.past n c id hc hpast

/-- A query that is pending has not returned. -/
theorem open_of_pending (hs : h.Sound) (hp : h.race.messenger.pending.get? id = some target)
    (hc : h.race.calls[n]? = some c) (hid : c.id? = some id) : c.hasReturned = false := by
  by_contra hret
  exact hs.not_resolved hp (hs.resolved_of_hasReturned hc hid (by simpa using hret))

theorem opened_of_resolved (hs : h.Sound) (hres : id ∈ h.resolved) :
    ∃ target, (id, target) ∈ h.race.opened := by
  obtain ⟨x, hx, rfl⟩ := List.mem_map.1 hres
  obtain ⟨k, d, -, -, -, -, hfate⟩ := hs.fate x hx
  cases hfate with
  | @itself o target hcall _ hout =>
    have hquery : o.query? = some (x.id, target) := by
      rcases hout with ⟨_, rfl⟩ | ⟨_, rfl⟩ <;> rfl
    exact ⟨target, Race.mem_opened.2 ⟨k, o, hcall, hquery⟩⟩
  | inHand _ _ _ hown hquery => exact ⟨_, Race.mem_opened.2 ⟨_, _, hown, hquery⟩⟩
  | ready _ hown hquery => exact ⟨_, Race.mem_opened.2 ⟨_, _, hown, hquery⟩⟩
  | pickedUp _ hown => exact ⟨_, Race.mem_opened.2 ⟨_, _, hown, rfl⟩⟩

theorem eq_of_id_eq (hs : h.Sound) {x y : Removal} (hx : x ∈ h.removals) (hy : y ∈ h.removals)
    (hid : x.id = y.id) : x = y :=
  List.inj_on_of_nodup_map hs.once hx hy hid

/-- A query that is about to be entered has not been entered before. -/
theorem not_opened_of_opening {found : List String} (hs : h.Sound)
    (hc : h.race.calls[n]? = some (.opening id found)) : (id, target) ∉ h.race.opened := by
  intro ht
  obtain ⟨i, o, ho, hq⟩ := Race.mem_opened.1 ht
  have hin : i = n := hs.ids i n o _ id ho hc (Call.id?_of_query? hq) rfl
  rw [hin, hc] at ho
  cases ho
  cases hq

/-! ### What a step of one call leaves sound -/

theorem ids_advance (hs : h.Sound) (hc : h.race.calls[n]? = some c)
    (hid : ∀ id, c'.id? = some id → c.id? = some id) (k k' : Nat) (d d' : Call) (id : Uuid)
    (hd : (h.race.advance n c' m).calls[k]? = some d)
    (hd' : (h.race.advance n c' m).calls[k']? = some d') (hi : d.id? = some id)
    (hi' : d'.id? = some id) : k = k' := by
  obtain ⟨e, he, hie⟩ := Race.exists_of_id?_advance hc hid hd hi
  obtain ⟨e', he', hie'⟩ := Race.exists_of_id?_advance hc hid hd' hi'
  exact hs.ids k k' e e' id he he' hie hie'

theorem pending_advance (hs : h.Sound) (hc : h.race.calls[n]? = some c)
    (hquery : c'.query? = c.query?) (hp : m.pending = h.race.messenger.pending) (id : Uuid)
    (target : String) :
    m.pending.get? id = some target ↔
      (id, target) ∈ (h.race.advance n c' m).opened ∧ id ∉ h.resolved := by
  rw [hp, Race.mem_opened_advance hc hquery]
  exact hs.pending id target

/-- The queries that were taken out have a fate in another race if their fates carry over. -/
theorem fate_of {r' : Race} (hs : h.Sound) (hlength : h.race.calls.length ≤ r'.calls.length)
    (hopened : ∀ id target, (id, target) ∈ h.race.opened → (id, target) ∈ r'.opened)
    (hfate : ∀ x ∈ h.removals, ∀ (k : Nat) (d : Call), x.caller = some (k, d) →
      Fate h.race x.id k d → Fate r' x.id k d) (x : Removal) (hx : x ∈ h.removals) :
    ∃ k d, x.caller = some (k, d) ∧ k < r'.calls.length ∧ d.takes = some x.id ∧
      (∀ e ∈ d.seen, e ∈ r'.opened) ∧ Fate r' x.id k d := by
  obtain ⟨k, d, hcaller, hk, htakes, hseen, hx'⟩ := hs.fate x hx
  exact ⟨k, d, hcaller, Nat.lt_of_lt_of_le hk hlength, htakes,
    fun e he => hopened e.1 e.2 (hseen e he), hfate x hx k d hcaller hx'⟩

theorem fate_advance (hs : h.Sound) (hc : h.race.calls[n]? = some c)
    (hkeep : ∀ e, c.query? = some e → c'.query? = some e)
    (hfate : ∀ x ∈ h.removals, ∀ (k : Nat) (d : Call), x.caller = some (k, d) →
      Fate h.race x.id k d → Fate (h.race.advance n c' m) x.id k d) (x : Removal)
    (hx : x ∈ h.removals) :
    ∃ k d, x.caller = some (k, d) ∧ k < (h.race.advance n c' m).calls.length ∧
      d.takes = some x.id ∧ (∀ e ∈ d.seen, e ∈ (h.race.advance n c' m).opened) ∧
      Fate (h.race.advance n c' m) x.id k d :=
  hs.fate_of (le_of_eq Race.length_advance.symm)
    (fun _ _ => Race.opened_advance_of hc hkeep) hfate x hx

/-- An outcome that a call holds stays with it under a step that leaves the outcome and its query
alone. -/
theorem holder_advance {k : Nat} {d : Call} {rep : Reply} (hs : h.Sound)
    (hc : h.race.calls[n]? = some c) (hd : h.race.calls[k]? = some d)
    (hholds : d.holds = some (id, rep))
    (hreply : m.replies.get? id = h.race.messenger.replies.get? id)
    (hnew : c'.id? = some id → c'.hasReturned → c' = c) :
    (∃ c₀, ⟨id, some (k, c₀)⟩ ∈ h.removals ∧ c₀.outcome = some rep) ∧
      m.replies.get? id = none ∧
      ∀ (i : Nat) (o : Call), (h.race.advance n c' m).calls[i]? = some o → o.id? = some id →
        o.hasReturned = false := by
  obtain ⟨hex, hnone, hopen⟩ := hs.holder k d id rep hd hholds
  refine ⟨hex, hreply.trans hnone, fun i o ho hi => ?_⟩
  rcases Race.calls_advance_cases hc ho with ⟨-, rfl⟩ | ⟨-, ho⟩
  · by_contra hret
    have hret : o.hasReturned = true := by simpa using hret
    have hsame := hnew hi hret
    rw [hsame] at hi hret
    rw [hopen n c hc hi] at hret
    cases hret
  · exact hopen i o ho hi

theorem past_advance {out : List Uuid} (hs : h.Sound) (hc : h.race.calls[n]? = some c)
    (hsub : h.resolved ⊆ out) (hpast : ∀ id, c'.past = some id → id ∈ out) (k : Nat) (d : Call)
    (id : Uuid) (hd : (h.race.advance n c' m).calls[k]? = some d) (hp : d.past = some id) :
    id ∈ out := by
  rcases Race.calls_advance_cases hc hd with ⟨-, rfl⟩ | ⟨-, hd⟩
  · exact hpast id hp
  · exact hsub (hs.past k d id hd hp)

theorem seen_advance (hs : h.Sound) (hc : h.race.calls[n]? = some c)
    (hkeep : ∀ e, c.query? = some e → c'.query? = some e)
    (hseen : ∀ e ∈ c'.seen, e ∈ h.race.opened) (k : Nat) (d : Call) (e : Uuid × String)
    (hd : (h.race.advance n c' m).calls[k]? = some d) (he : e ∈ d.seen) :
    e ∈ (h.race.advance n c' m).opened := by
  have hopened : (e.1, e.2) ∈ h.race.opened := by
    rcases Race.calls_advance_cases hc hd with ⟨-, rfl⟩ | ⟨-, hd⟩
    · exact hseen e he
    · exact hs.seen k d e hd he
  exact Race.opened_advance_of hc hkeep hopened

theorem taken_advance (hs : h.Sound) (hc : h.race.calls[n]? = some c)
    (htaken : c'.taken = c.taken) (k : Nat) (d : Call) (count : Nat)
    (hd : (h.race.advance n c' m).calls[k]? = some d) (ht : d.taken = some count) :
    (h.removals.filter fun x => x.caller.map Prod.fst = some k).length = count := by
  rcases Race.calls_advance_cases hc hd with ⟨rfl, rfl⟩ | ⟨-, hd⟩
  · exact hs.taken k c count hc (htaken ▸ ht)
  · exact hs.taken k d count hd ht

/-! ### One effect at a time -/

theorem still (hs : h.Sound) (hc : h.race.calls[n]? = some c)
    (hid : ∀ id, c'.id? = some id → c.id? = some id)
    (hquery : c'.query? = c.query?) (hheld : c.holds = none) (hholds : c'.holds = none)
    (hfinished : c.finished → c' = c) (hreturned : c'.hasReturned → c' = c)
    (hpast : ∀ id, c'.past = some id → c.past = some id ∨ h.race.messenger.pending.get? id = none)
    (hseen : ∀ e ∈ c'.seen, e ∈ c.seen ∨ h.race.messenger.pending.get? e.1 = some e.2)
    (htaken : c'.taken = c.taken) :
    Sound ⟨h.race.advance n c' h.race.messenger, h.removals⟩ where
  ids := hs.ids_advance hc hid
  pending := hs.pending_advance hc hquery rfl
  once := hs.once
  fate := by
    refine hs.fate_advance hc (fun e he => hquery.trans he) fun x _ k d _ hfate => ?_
    refine hfate.frame rfl (fun i o ho hi => ?_) (fun i o rep ho hr => ?_)
    · rw [Race.calls_advance hc]
      by_cases hin : i = n
      · subst hin
        rw [hc] at ho
        cases ho
        refine ⟨c', by simp, hquery, hfinished, fun hopen => ?_⟩
        by_contra hret
        rw [hreturned (by simpa using hret), Call.not_hasReturned hopen] at hret
        exact hret rfl
      · exact ⟨o, by simp [hin, ho], rfl, fun _ => rfl, Call.not_hasReturned⟩
    · have hin : i ≠ n := by
        rintro rfl
        rw [hc] at ho
        cases ho
        cases hheld.symm.trans hr
      rw [Race.calls_advance hc, if_neg hin, ho]
  holder k d id rep hd hr := by
    rcases Race.calls_advance_cases hc hd with ⟨-, rfl⟩ | ⟨-, hd⟩
    · cases hholds.symm.trans hr
    · exact hs.holder_advance hc hd hr rfl fun _ => hreturned
  reply := hs.reply
  past := by
    refine hs.past_advance hc (List.Subset.refl _) fun id hp => ?_
    rcases hpast id hp with hp | hnone
    · exact hs.past n c id hc hp
    · obtain ⟨target, hq⟩ := Call.query?_of_past hp
      have hopened : (id, target) ∈ h.race.opened := Race.mem_opened.2 ⟨n, c, hc, hquery ▸ hq⟩
      by_contra hres
      cases hnone.symm.trans ((hs.pending id target).2 ⟨hopened, hres⟩)
  seen := by
    refine hs.seen_advance hc (fun e he => hquery.trans he) fun e he => ?_
    rcases hseen e he with he | hp
    · exact hs.seen n c e hc he
    · exact ((hs.pending e.1 e.2).1 hp).1
  taken := hs.taken_advance hc htaken

theorem enters (hs : h.Sound) (hc : h.race.calls[n]? = some (.opening id [target])) :
    Sound ⟨h.race.advance n (.writing id target) (h.race.messenger.openQuery id target),
      h.removals⟩ where
  ids := hs.ids_advance hc fun _ hi => hi
  pending other t := by
    have hunres : id ∉ h.resolved := by
      intro hres
      obtain ⟨t, ht⟩ := hs.opened_of_resolved hres
      exact hs.not_opened_of_opening hc ht
    rw [Race.mem_opened_enters hc, Race.messenger_advance, openQuery, Table.get?_insert]
    show _ ↔ _ ∧ other ∉ h.resolved
    by_cases ho : other = id
    · subst ho
      simp [hs.not_opened_of_opening hc, hunres, eq_comm]
    · simp [ho, hs.pending other t]
  once := hs.once
  fate := by
    have hkeep : ∀ e, (Call.opening id [target]).query? = some e →
        (Call.writing id target).query? = some e := fun e he => by cases he
    refine hs.fate_advance hc hkeep fun x hx k d _ hfate => ?_
    refine hfate.other hc (fun hid => ?_) (fun _ hheld => by cases hheld) rfl
    cases hid
    obtain ⟨t, ht⟩ := hs.opened_of_resolved (List.mem_map.2 ⟨x, hx, rfl⟩)
    exact hs.not_opened_of_opening hc ht
  holder k d other rep hd hr := by
    rcases Race.calls_advance_cases hc hd with ⟨-, rfl⟩ | ⟨-, hd⟩
    · cases hr
    · exact hs.holder_advance hc hd hr rfl fun _ hret => by cases hret
  reply := hs.reply
  past := hs.past_advance hc (List.Subset.refl _) fun other hpast => by cases hpast
  seen := hs.seen_advance hc (fun e he => by cases he) fun e he => by cases he
  taken := hs.taken_advance hc rfl

/-- A query is taken out of the pending table by a call that knows where its outcome goes. -/
theorem takenOut (hs : h.Sound) (hc : h.race.calls[n]? = some c) (htakes : c.takes = some id)
    (hp : h.race.messenger.pending.contains id) (hquery : c'.query? = c.query?)
    (hid : c'.id? = c.id?) (howner : ∀ other, c.id? = some other → other = id)
    (hheld : c.holds = none)
    (hholds : ∀ other rep, c'.holds = some (other, rep) → other = id ∧ c.outcome = some rep)
    (hpast : ∀ other, c'.past = some other → other = id) (hseen : ∀ e ∈ c'.seen, e ∈ c.seen)
    (htaken : c'.taken = c.taken.map (· + 1))
    (hfate : Fate (h.race.advance n c' (h.race.messenger.dropQuery id)) id n c) :
    Sound ⟨h.race.advance n c' (h.race.messenger.dropQuery id),
      h.removals ++ [⟨id, some (n, c)⟩]⟩ := by
  obtain ⟨target, hp⟩ := Table.contains_iff.1 hp
  have hkeep : ∀ e, c.query? = some e → c'.query? = some e := fun e he => hquery.trans he
  have hseen' : ∀ e ∈ c'.seen, e ∈ h.race.opened := fun e he => hs.seen n c e hc (hseen e he)
  have hres : ∀ other ∈ h.resolved, other ≠ id := by
    rintro other ho rfl
    exact hs.not_resolved hp ho
  have hresolved : resolved ⟨h.race.advance n c' (h.race.messenger.dropQuery id),
      h.removals ++ [⟨id, some (n, c)⟩]⟩ = h.resolved ++ [id] := by simp [resolved]
  refine ⟨hs.ids_advance hc fun other hi => hid ▸ hi, ?pending, ?once, ?fate, ?holder, ?reply,
    ?past, hs.seen_advance hc hkeep hseen', ?taken⟩
  case pending =>
    intro other t
    rw [hresolved, Race.mem_opened_advance hc hquery, Race.messenger_advance, dropQuery,
      Table.get?_erase]
    by_cases ho : other = id
    · simp [ho]
    · simp [ho, hs.pending other t]
  case once =>
    rw [hresolved]
    exact List.nodup_append.2 ⟨hs.once, by simp, by simpa using hres⟩
  case fate =>
    intro x hx
    rcases List.mem_append.1 hx with hx | hx
    · refine hs.fate_advance hc hkeep (fun y hy k d _ hfate => ?_) x hx
      have hne : y.id ≠ id := hres _ (List.mem_map.2 ⟨y, hy, rfl⟩)
      exact hfate.other hc (fun h' => hne (howner _ h')) (by simp [hheld]) rfl
    · obtain rfl := List.mem_singleton.1 hx
      have hn : n < h.race.calls.length := (List.getElem?_eq_some_iff.1 hc).1
      refine ⟨n, c, rfl, by simpa using hn, htakes, fun e he => ?_, hfate⟩
      exact (Race.mem_opened_advance hc hquery).2 (hs.seen n c e hc he)
  case holder =>
    intro k d other rep hd hr
    rcases Race.calls_advance_cases hc hd with ⟨rfl, rfl⟩ | ⟨-, hd⟩
    · obtain ⟨rfl, hout⟩ := hholds other rep hr
      refine ⟨⟨c, by simp, hout⟩, hs.replies_of_pending hp, fun i o ho hi => ?_⟩
      rcases Race.calls_advance_cases hc ho with ⟨-, rfl⟩ | ⟨-, ho⟩
      · cases (Call.id?_of_holds hr).symm.trans hi
      · exact hs.open_of_pending hp ho hi
    · obtain ⟨⟨c₀, hmem, -⟩, -⟩ := hs.holder k d other rep hd hr
      have hne : other ≠ id := hres other (List.mem_map.2 ⟨_, hmem, rfl⟩)
      have hsame : c'.id? = some other → c'.hasReturned → c' = c :=
        fun hi => absurd (howner other (hid ▸ hi)) hne
      obtain ⟨⟨c₁, hmem', hout⟩, hrest⟩ := hs.holder_advance hc hd hr rfl hsame
      exact ⟨⟨c₁, List.mem_append_left _ hmem', hout⟩, hrest⟩
  case reply =>
    intro other rep hr
    rw [hresolved]
    exact List.mem_append_left _ (hs.reply other rep hr)
  case past =>
    rw [hresolved]
    refine hs.past_advance hc (List.subset_append_left ..) fun other hother => ?_
    simp [hpast other hother]
  case taken =>
    intro k d count hd ht
    rw [List.filter_append, List.length_append]
    rcases Race.calls_advance_cases hc hd with ⟨rfl, rfl⟩ | ⟨hk, hd⟩
    · rw [htaken] at ht
      obtain ⟨before, hbefore, rfl⟩ := Option.map_eq_some_iff.1 ht
      rw [hs.taken k c before hc hbefore]
      simp
    · rw [hs.taken k d count hd ht]
      simp [hk.symm]

theorem leaves (hs : h.Sound) (hc : h.race.calls[n]? = some c)
    (hcases : c = .withdrawing id target ∧ c' = .unwritten id target ∨
      c = .expiring id target ∧ c' = .returned id target none)
    (hp : h.race.messenger.pending.contains id) :
    Sound ⟨h.race.advance n c' (h.race.messenger.dropQuery id),
      h.removals ++ [⟨id, some (n, c)⟩]⟩ := by
  have hnone : h.race.messenger.replies.get? id = none := by
    obtain ⟨t, ht⟩ := Table.contains_iff.1 hp
    exact hs.replies_of_pending ht
  have hfate : Fate (h.race.advance n c' (h.race.messenger.dropQuery id)) id n c := by
    refine .itself (o := c') ?_ hnone hcases
    simp [Race.calls_advance hc]
  rcases hcases with ⟨rfl, rfl⟩ | ⟨rfl, rfl⟩
  all_goals
    exact hs.takenOut hc rfl hp rfl rfl (by simp [Call.id?, Call.query?]) rfl
      (by simp [Call.holds]) (by simp [Call.past]) (by simp [Call.seen]) rfl hfate

theorem takes {rep : Reply} (hs : h.Sound) (hc : h.race.calls[n]? = some c)
    (htakes : c.takes = some id) (hr : c.outcome = some rep) (hquery : c.id? = none)
    (hquery' : c'.id? = none) (hheld : c.holds = none) (hholds : c'.holds = some (id, rep))
    (hseen : ∀ e ∈ c'.seen, e ∈ c.seen) (htaken : c'.taken = c.taken.map (· + 1))
    (hp : h.race.messenger.pending.contains id) :
    Sound ⟨h.race.advance n c' (h.race.messenger.dropQuery id),
      h.removals ++ [⟨id, some (n, c)⟩]⟩ := by
  obtain ⟨target, ht⟩ := Table.contains_iff.1 hp
  obtain ⟨i, o, ho, hq⟩ := Race.mem_opened.1 ((hs.pending id target).1 ht).1
  have hin : i ≠ n := by
    rintro rfl
    rw [hc] at ho
    cases ho
    cases hquery.symm.trans (Call.id?_of_query? hq)
  have hopen : o.hasReturned = false := hs.open_of_pending ht ho (Call.id?_of_query? hq)
  have hfate : Fate (h.race.advance n c' (h.race.messenger.dropQuery id)) id n c :=
    .inHand hr (d := c') (o := o) (n := i) (by simp [Race.calls_advance hc]) hholds
      (by simp [Race.calls_advance hc, hin, ho]) hq hopen (hs.replies_of_pending ht)
  refine hs.takenOut hc htakes hp ?_ (hquery'.trans hquery.symm) ?_ hheld ?_ ?_ hseen htaken hfate
  · rw [Call.query?_of_id? hquery, Call.query?_of_id? hquery']
  · simp [hquery]
  · intro other rep' hrep
    rw [hholds] at hrep
    cases hrep
    exact ⟨rfl, hr⟩
  · intro other hpast
    cases (Call.past_of_id? hquery').symm.trans hpast

/-- An outcome that was in the hands of a call is there after the call has handed it over. -/
theorem fate_deliver {rep : Reply} {c₀ : Call} (hs : h.Sound) (hc : h.race.calls[n]? = some c)
    (hheld : c.holds = some (id, rep)) (hquery : c.id? = none) (hfate : Fate h.race id n c₀) :
    Fate (h.race.advance n c' (h.race.messenger.deliver id rep)) id n c₀ := by
  obtain ⟨-, hnone, hopen⟩ := hs.holder n c id rep hc hheld
  cases hfate with
  | @itself o t hcall _ hcases =>
    rw [hc] at hcall
    cases hcall
    rcases hcases with ⟨_, rfl⟩ | ⟨_, rfl⟩ <;> cases hquery
  | @inHand d o i t rep' hrep hcall hholds' hown hq hret _ =>
    rw [hc] at hcall
    cases hcall
    rw [hheld] at hholds'
    cases hholds'
    have hin : i ≠ n := by
      rintro rfl
      rw [hc] at hown
      cases hown
      cases hquery.symm.trans (Call.id?_of_query? hq)
    exact .ready (n := i) hrep (by simp [Race.calls_advance hc, hin, hown]) hq hret
      (by simp [deliver, Table.get?_insert])
  | ready _ _ _ _ hsome => cases hnone.symm.trans hsome
  | pickedUp _ hown _ => cases hopen _ _ hown rfl

theorem hands {rep : Reply} (hs : h.Sound) (hc : h.race.calls[n]? = some c)
    (hheld : c.holds = some (id, rep)) (hholds : c'.holds = none) (hquery : c.id? = none)
    (hquery' : c'.id? = none) (hseen : ∀ e ∈ c'.seen, e ∈ c.seen) (htaken : c'.taken = c.taken) :
    Sound ⟨h.race.advance n c' (h.race.messenger.deliver id rep), h.removals⟩ := by
  have hsame : c'.query? = c.query? := by
    rw [Call.query?_of_id? hquery, Call.query?_of_id? hquery']
  have hkeep : ∀ e, c.query? = some e → c'.query? = some e := fun e he => hsame.trans he
  obtain ⟨⟨c₀, hmem, -⟩, -⟩ := hs.holder n c id rep hc hheld
  have hreply : ∀ other, other ≠ id →
      (h.race.messenger.deliver id rep).replies.get? other =
        h.race.messenger.replies.get? other := by
    intro other hne
    simp [deliver, Table.get?_insert, hne]
  refine ⟨hs.ids_advance hc (by simp [hquery']), hs.pending_advance hc hsame rfl, hs.once, ?fate,
    ?holder, ?reply, hs.past_advance hc (List.Subset.refl _) ?past,
    hs.seen_advance hc hkeep fun e he => hs.seen n c e hc (hseen e he),
    hs.taken_advance hc htaken⟩
  case fate =>
    refine hs.fate_advance hc hkeep fun x hx k d hcaller hfate => ?_
    by_cases hx' : x.id = id
    · obtain rfl : x = ⟨id, some (n, c₀)⟩ := hs.eq_of_id_eq hx hmem hx'
      cases hcaller
      exact hs.fate_deliver hc hheld hquery hfate
    · refine hfate.other hc (by simp [hquery]) (fun rep' hrep => ?_) (hreply _ hx')
      cases hheld.symm.trans hrep
      exact hx' rfl
  case holder =>
    intro k d other rep' hd hr
    rcases Race.calls_advance_cases hc hd with ⟨-, rfl⟩ | ⟨hk, hd⟩
    · cases hholds.symm.trans hr
    · obtain ⟨⟨c₁, hmem', -⟩, -⟩ := hs.holder k d other rep' hd hr
      have hne : other ≠ id := by
        rintro rfl
        cases hs.eq_of_id_eq hmem' hmem rfl
        exact hk rfl
      exact hs.holder_advance hc hd hr (hreply other hne) (by simp [hquery'])
  case reply =>
    intro other rep' hr
    by_cases hne : other = id
    · subst hne
      exact List.mem_map.2 ⟨_, hmem, rfl⟩
    · exact hs.reply other rep' ((hreply other hne).symm.trans hr)
  case past =>
    intro other hpast
    cases (Call.past_of_id? hquery').symm.trans hpast

/-- An outcome that was there is with its query after the query has picked it up. -/
theorem fate_pickUp {rep : Reply} {k : Nat} {d : Call} (hc : r.calls[n]? = some c)
    (hr : r.messenger.replies.get? id = some rep) (hfate : Fate r id k d) :
    Fate (r.advance n (.returned id target rep.result)
      { r.messenger with replies := r.messenger.replies.erase id }) id k d := by
  cases hfate with
  | itself _ hnone _ => cases hnone.symm.trans hr
  | inHand _ _ _ _ _ _ hnone => cases hnone.symm.trans hr
  | @ready o i t rep' hrep hown hq hret hsome =>
    rw [hr] at hsome
    cases hsome
    exact .pickedUp (n := n) hrep (by rw [Race.calls_advance hc, if_pos rfl])
      (by simp [Table.get?_erase])
  | pickedUp _ _ hnone => cases hnone.symm.trans hr

theorem picks {rep : Reply} (hs : h.Sound) (hc : h.race.calls[n]? = some c)
    (hawaiting : c.awaiting) (hquery : c.query? = some (id, target))
    (hr : h.race.messenger.replies.get? id = some rep) :
    Sound ⟨h.race.advance n (.returned id target rep.result)
      { h.race.messenger with replies := h.race.messenger.replies.erase id }, h.removals⟩ := by
  have hsame : (Call.returned id target rep.result).query? = c.query? := hquery.symm
  have hkeep : ∀ e, c.query? = some e → (Call.returned id target rep.result).query? = some e :=
    fun e he => hsame.trans he
  have hid : c.id? = some id := Call.id?_of_query? hquery
  have hheld : c.holds = none := by
    cases c <;> simp_all [Call.awaiting, Call.holds]
  have hnottaken : c.taken = none := by
    cases c <;> simp_all [Call.awaiting, Call.taken]
  refine ⟨hs.ids_advance hc fun other hi => hid.trans hi, hs.pending_advance hc hsame rfl,
    hs.once, ?fate, ?holder, ?reply, hs.past_advance hc (List.Subset.refl _) ?past,
    hs.seen_advance hc hkeep ?seen, hs.taken_advance hc hnottaken.symm⟩
  case fate =>
    refine hs.fate_advance hc hkeep fun x _ k d _ hfate => ?_
    by_cases hx : x.id = id
    · subst hx
      exact fate_pickUp hc hr hfate
    · refine hfate.other hc ?_ (by simp [hheld]) (by simp [Table.get?_erase, hx])
      rw [hid]
      exact fun h' => hx (Option.some.inj h').symm
  case holder =>
    intro k d other rep' hd hr'
    rcases Race.calls_advance_cases hc hd with ⟨-, rfl⟩ | ⟨-, hd⟩
    · cases hr'
    · obtain ⟨-, hnone, -⟩ := hs.holder k d other rep' hd hr'
      have hne : other ≠ id := by
        rintro rfl
        cases hnone.symm.trans hr
      refine hs.holder_advance hc hd hr' (by simp [Table.get?_erase, hne]) fun hi => ?_
      cases hi
      exact absurd rfl hne
  case reply =>
    intro other rep' hr'
    rw [Race.messenger_advance, Table.get?_erase] at hr'
    split at hr'
    · cases hr'
    · exact hs.reply other rep' hr'
  case past =>
    intro other hpast
    cases hpast
    exact hs.reply id rep hr
  case seen =>
    intro e he
    cases he

/-- A new call has touched nothing yet. -/
theorem begin (hs : h.Sound) (hid : ∀ (n : Nat) (o : Call) (id : Uuid), h.race.calls[n]? = some o →
      o.id? = some id → c.id? ≠ some id)
    (hquery : c.query? = none) (hholds : c.holds = none) (hseen : c.seen = [])
    (hfinished : c.finished = false) (htaken : ∀ count, c.taken = some count → count = 0) :
    Sound ⟨h.race.begin c, h.removals⟩ := by
  have hopened : (h.race.begin c).opened = h.race.opened := Race.opened_begin hquery
  refine ⟨?ids, ?pending, hs.once, ?fate, ?holder, hs.reply, ?past, ?seen, ?taken⟩
  case ids =>
    intro k k' d d' id hd hd' hi hi'
    rcases Race.calls_begin_cases hd with hold | ⟨rfl, rfl⟩ <;>
      rcases Race.calls_begin_cases hd' with hold' | ⟨rfl, rfl⟩
    · exact hs.ids k k' d d' id hold hold' hi hi'
    · exact absurd hi' (hid k d id hold hi)
    · exact absurd hi (hid k' d' id hold' hi')
    · rfl
  case pending =>
    intro id target
    rw [hopened]
    exact hs.pending id target
  case fate =>
    refine hs.fate_of (by simp [Race.begin]) (fun id target => (hopened ▸ ·)) ?_
    intro x _ k d _ hfate
    refine hfate.frame rfl (fun i o ho _ => ?_) (fun i o rep ho _ => Race.calls_begin_of ho)
    exact ⟨o, Race.calls_begin_of ho, rfl, fun _ => rfl, Call.not_hasReturned⟩
  case holder =>
    intro k d id rep hd hr
    rcases Race.calls_begin_cases hd with hd | ⟨-, rfl⟩
    · obtain ⟨hex, hnone, hopen⟩ := hs.holder k d id rep hd hr
      refine ⟨hex, hnone, fun i o ho hi => ?_⟩
      rcases Race.calls_begin_cases ho with ho | ⟨-, rfl⟩
      · exact hopen i o ho hi
      · exact Call.not_hasReturned hfinished
    · cases hholds.symm.trans hr
  case past =>
    intro k d id hd hpast
    rcases Race.calls_begin_cases hd with hd | ⟨-, rfl⟩
    · exact hs.past k d id hd hpast
    · obtain ⟨t, hq⟩ := Call.query?_of_past hpast
      cases hquery.symm.trans hq
  case seen =>
    intro k d e hd he
    rw [hopened]
    rcases Race.calls_begin_cases hd with hd | ⟨-, rfl⟩
    · exact hs.seen k d e hd he
    · rw [hseen] at he
      cases he
  case taken =>
    intro k d count hd ht
    rcases Race.calls_begin_cases hd with hd | ⟨rfl, rfl⟩
    · exact hs.taken k d count hd ht
    · rw [htaken count ht, List.length_eq_zero_iff, List.filter_eq_nil_iff]
      intro x hx
      obtain ⟨k, d, hcaller, hk, -⟩ := hs.fate x hx
      have hne : k ≠ h.race.calls.length := Nat.ne_of_lt hk
      simp [hcaller, hne]

end Record.Sound

/-! ### Whole runs -/

/-- The queries that a step takes out of the pending table. -/
def gone (m m' : Messenger) : List Uuid :=
  m.pending.keys.filter fun id => !m'.pending.contains id

theorem gone_of_forall (h : ∀ id target, m.pending.get? id = some target →
    ∃ target', m'.pending.get? id = some target') : gone m m' = [] := by
  rw [gone, List.filter_eq_nil_iff]
  intro id hid
  obtain ⟨target, ht⟩ := Table.mem_keys_iff.1 hid
  simpa using Table.contains_iff.2 (h id target ht)

theorem gone_of_pending (h : m'.pending = m.pending) : gone m m' = [] :=
  gone_of_forall fun _ t ht => ⟨t, h ▸ ht⟩

theorem gone_dropQuery (hp : m.pending.contains id) : gone m (m.dropQuery id) = [id] := by
  have hmem : id ∈ m.pending.keys := Table.mem_keys_iff.2 (Table.contains_iff.1 hp)
  have hsame : gone m (m.dropQuery id) = m.pending.keys.filter (· == id) := by
    refine List.filter_congr fun other hother => ?_
    obtain ⟨target, ht⟩ := Table.mem_keys_iff.1 hother
    by_cases ho : other = id <;> simp [dropQuery, Table.contains, Table.get?_erase, ho, ht]
  have hone : m.pending.keys.count id = 1 := List.count_eq_one_of_mem m.pending.nodup hmem
  rw [hsame, List.filter_beq, hone]
  rfl

theorem Record.act_go (hc : h.race.calls[n]? = some c) (written late : Bool) :
    h.act (.go n written late) =
      ⟨h.race.advance n (c.step written late h.race.messenger).1
          (c.step written late h.race.messenger).2,
        h.removals ++ (gone h.race.messenger (c.step written late h.race.messenger).2).map
          (⟨·, some (n, c)⟩)⟩ := by
  rw [act, removed, Race.act_go hc]
  simp only [Race.caller, hc, Option.map_some, Race.messenger_advance, gone]

/-- Every effect keeps a record sound, and what is gone from the pending table was taken out. -/
theorem Record.Sound.effect (hs : h.Sound) (hc : h.race.calls[n]? = some c)
    (heffect : c.Effect h.race.messenger c' m) :
    Sound ⟨h.race.advance n c' m,
      h.removals ++ (gone h.race.messenger m).map (⟨·, some (n, c)⟩)⟩ := by
  cases heffect with
  | still hid hquery hheld hholds hfinished hreturned hpast hseen htaken =>
    rw [gone_of_pending rfl]
    simpa using hs.still hc hid hquery hheld hholds hfinished hreturned hpast hseen htaken
  | enters id target =>
    have hkept : gone h.race.messenger (h.race.messenger.openQuery id target) = [] := by
      refine gone_of_forall fun other t ht => ?_
      rw [openQuery, Table.get?_insert]
      split
      · exact ⟨target, rfl⟩
      · exact ⟨t, ht⟩
    rw [hkept]
    simpa using hs.enters hc
  | leaves hcases hp =>
    rw [gone_dropQuery hp]
    exact hs.leaves hc hcases hp
  | takes htakes hr hquery hquery' hheld hholds hseen htaken hp =>
    rw [gone_dropQuery hp]
    exact hs.takes hc htakes hr hquery hquery' hheld hholds hseen htaken hp
  | @hands _ _ id rep hheld hholds hquery hquery' hseen htaken =>
    have hkept : gone h.race.messenger (h.race.messenger.deliver id rep) = [] :=
      gone_of_pending rfl
    rw [hkept]
    simpa using hs.hands hc hheld hholds hquery hquery' hseen htaken
  | @picks _ id _ _ hawaiting hquery hr =>
    have hkept : gone h.race.messenger { h.race.messenger with
        replies := h.race.messenger.replies.erase id } = [] := gone_of_pending rfl
    rw [hkept]
    simpa using hs.picks hc hawaiting hquery hr

theorem Record.act_of_pending {a : Act}
    (hp : (h.race.act a).messenger.pending = h.race.messenger.pending) :
    h.act a = ⟨h.race.act a, h.removals⟩ := by
  have hnone : removed h.race a = [] := by
    have : gone h.race.messenger (h.race.act a).messenger = [] := gone_of_pending hp
    rw [gone] at this
    rw [removed, this, List.map_nil]
  rw [act, hnone, List.append_nil]

/-- Every act keeps a record sound, if a new query comes under an id that no other query has. -/
theorem Record.Sound.act (hs : h.Sound) (a : Act) (hfresh : ∀ id, a.id? = some id →
    ∀ (n : Nat) (c : Call), h.race.calls[n]? = some c → c.id? ≠ some id) : (h.act a).Sound := by
  cases a with
  | query id found =>
    rw [act_of_pending rfl]
    refine hs.begin (fun n o other ho hi hother => ?_) rfl rfl rfl rfl (by simp [Call.taken])
    cases hother
    exact hfresh id rfl n o ho hi
  | receive m =>
    by_cases hm : m.isResponse
    · have hact : h.race.act (.receive m) = h.race.begin (.completing m) := by
        simp [Race.act, hm]
      rw [act_of_pending (by rw [hact]; rfl), hact]
      exact hs.begin (by simp [Call.id?, Call.query?]) rfl rfl rfl rfl (by simp [Call.taken])
    · have hact : h.race.act (.receive m) =
          { h.race with messenger := (h.race.messenger.stamp m).2 } := by
        simp [Race.act, hm]
      rw [act_of_pending (by rw [hact]; rfl), hact]
      refine { hs with fate := ?_ }
      intro x hx
      obtain ⟨k, d, hcaller, hk, htakes, hseen, hfate⟩ := hs.fate x hx
      refine ⟨k, d, hcaller, hk, htakes, hseen, ?_⟩
      refine hfate.frame rfl (fun i o ho _ => ?_) (fun i o rep ho _ => ho)
      exact ⟨o, ho, rfl, fun _ => rfl, Call.not_hasReturned⟩
  | complete m =>
    rw [act_of_pending rfl]
    exact hs.begin (by simp [Call.id?, Call.query?]) rfl rfl rfl rfl (by simp [Call.taken])
  | fail target =>
    rw [act_of_pending rfl]
    exact hs.begin (by simp [Call.id?, Call.query?]) rfl rfl rfl rfl (by simp [Call.taken])
  | go n written late =>
    cases hc : h.race.calls[n]? with
    | none =>
      have hact : h.race.act (.go n written late) = h.race := by simp [Race.act, hc]
      rw [act_of_pending (by rw [hact]), hact]
      exact hs
    | some c =>
      rw [act_go hc]
      exact hs.effect hc (c.effect_step written late h.race.messenger)

/-- A step gives a call no id that it did not have. -/
theorem Call.Effect.id? (heffect : c.Effect m c' m') (hid : c'.id? = some id) :
    c.id? = some id := by
  cases heffect with
  | still hid' => exact hid' id hid
  | enters => exact hid
  | leaves hcases =>
    rcases hcases with ⟨rfl, rfl⟩ | ⟨rfl, rfl⟩ <;> exact hid
  | takes _ _ _ hquery' =>
    rw [hquery'] at hid
    cases hid
  | hands _ _ _ hquery' =>
    rw [hquery'] at hid
    cases hid
  | picks _ hquery =>
    cases hid
    exact id?_of_query? hquery

/-- A query that was entered keeps its id and its target. -/
theorem Call.Effect.query? (heffect : c.Effect m c' m') (hq : c.query? = some (id, target)) :
    c'.query? = some (id, target) := by
  cases heffect with
  | still _ hquery => exact hquery.trans hq
  | enters => cases hq
  | leaves hcases =>
    rcases hcases with ⟨rfl, rfl⟩ | ⟨rfl, rfl⟩ <;> exact hq
  | takes _ _ hnone => cases (query?_of_id? hnone).symm.trans hq
  | hands _ _ hnone => cases (query?_of_id? hnone).symm.trans hq
  | picks _ hquery => exact hquery.symm.trans hq

/-- The ids of a run's queries are those under which they were sent. -/
theorem Record.mem_ids (acts : List Act) (hc : (after timeout acts).race.calls[n]? = some c)
    (hid : c.id? = some id) : id ∈ acts.filterMap Act.id? := by
  induction acts using List.reverseRecOn generalizing n c with
  | nil => simp [after, Race.start] at hc
  | append_singleton acts a ih =>
    have hbegin : ∀ d : Call, d.id? = none ∨ d.id? = a.id? →
        ((after timeout acts).race.begin d).calls[n]? = some c →
        id ∈ (acts ++ [a]).filterMap Act.id? := by
      intro d hd hcd
      rw [List.filterMap_append, List.mem_append]
      rcases Race.calls_begin_cases hcd with hcd | ⟨-, rfl⟩
      · exact .inl (ih hcd hid)
      · rcases hd with hd | hd <;> simp_all
    rw [after_concat] at hc
    cases a with
    | query other found => exact hbegin (.opening other found) (.inr rfl) hc
    | receive m =>
      rw [act] at hc
      simp only [Race.act] at hc
      split at hc
      · exact hbegin (.completing m) (.inl rfl) hc
      · rw [List.filterMap_append, List.mem_append]
        exact .inl (ih hc hid)
    | complete m => exact hbegin (.completing m) (.inl rfl) hc
    | fail target => exact hbegin (.failing target) (.inl rfl) hc
    | go k written late =>
      have hids : (acts ++ [Act.go k written late]).filterMap Act.id? = acts.filterMap Act.id? := by
        simp [Act.id?]
      rw [hids]
      cases hk : (after timeout acts).race.calls[k]? with
      | none =>
        have hact : (after timeout acts).race.act (.go k written late) =
            (after timeout acts).race := by simp [Race.act, hk]
        rw [act, hact] at hc
        exact ih hc hid
      | some d =>
        rw [act_go hk] at hc
        simp only [Race.calls_advance hk] at hc
        split at hc
        · cases hc
          exact ih hk ((d.effect_step written late _).id? hid)
        · exact ih hc hid

/-- Every record of a run whose queries have different ids is sound. -/
theorem Record.sound_after (timeout : Nat) (acts : List Act)
    (hids : (acts.filterMap Act.id?).Nodup) : (after timeout acts).Sound := by
  induction acts using List.reverseRecOn with
  | nil =>
    refine ⟨?ids, ?pending, List.nodup_nil, ?fate, ?holder, ?reply, ?past, ?seen, ?taken⟩ <;>
      simp [after, Race.start, Race.opened, Messenger.new]
  | append_singleton acts a ih =>
    rw [List.filterMap_append, List.nodup_append] at hids
    obtain ⟨hbefore, -, hnew⟩ := hids
    rw [after_concat]
    refine (ih hbefore).act a fun id ha n c hc hid => ?_
    exact hnew id (mem_ids acts hc hid) id (by simp [ha]) rfl

end Fleet.Messenger

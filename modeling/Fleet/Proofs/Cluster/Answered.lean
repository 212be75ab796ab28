import Fleet.Proofs.Cluster.Awaits
import Fleet.Proofs.Cluster.Calm

/-!
# Responses that are handed over are returned

A query that was written returns the response that its node takes out of its mailbox in time, if
both nodes stay, their link is not cut, and no report that the target is gone waits in the mailbox
when the query begins to wait. The last condition is needed: such a report ends every query to the
node that it names, although it is about a link that was cut and restored before the query was
written.
-/

namespace Fleet

open Relation (ReflTransGen)

@[simp] theorem Slot.after_none (id : Uuid) (e : TransportEvent) (outcome : Option Reply) :
    (⟨none, outcome⟩ : Slot).after id e = ⟨none, outcome⟩ := by
  cases e <;> simp [after]

namespace Cluster

variable {σ : Type} {w w' : Cluster σ}

/-- The mailbox of the node at a place. -/
def mailbox? (w : Cluster σ) (place : Nat) : Option Nat :=
  w.stations[place]?.bind fun s => s.follower.map (·.mailbox)

/-- A report that a peer is gone waits in the mailbox of the node at a place. -/
def Reported (w : Cluster Network) (place : Nat) (b : String) : Prop :=
  ∃ k, w.mailbox? place = some k ∧ w.links.Reports k b

theorem Touches.mailbox? [FaithfulTransport σ] {place : Nat} {station station' : Station}
    {s' : Site σ} (h : Touches w w' place station station' s') (other : Nat) :
    w'.mailbox? other = w.mailbox? other := by
  obtain ⟨hlt, -⟩ := List.getElem?_eq_some_iff.1 h.found
  rw [Cluster.mailbox?, h.stations, List.getElem?_set, Cluster.mailbox?]
  by_cases heq : place = other
  · subst heq
    rw [if_pos rfl, if_pos hlt, h.found]
    exact h.mailbox
  · rw [if_neg heq]

end Cluster

namespace History

section Returned

variable {σ : Type} [FaithfulTransport σ] {P : Listeners Handler → Prop} {h h' : History σ}
  {x : Await} {r : Message} {slot : Slot}

/-- A node keeps its mailbox. -/
theorem Next.mailbox? (hnext : Next P h h') {place : Nat}
    (hplace : place < h.cluster.stations.length) :
    h'.cluster.mailbox? place = h.cluster.mailbox? place := by
  rcases hnext.kinds with ⟨t, rfl⟩ | ⟨_, _, _, _, hcalled⟩ | ⟨n, -, heq⟩ | hdrift |
    ⟨links, s, -, heq⟩
  · rcases (Cluster.move_step h.cluster t).touches with heq | ⟨_, _, _, _, htouches⟩
    · exact congrArg (·.mailbox? place) heq
    · exact htouches.mailbox? place
  · exact hcalled.mailbox? place
  · rw [heq]
    rfl
  · have hlt : place < h'.cluster.stations.length := hdrift.stations.length_eq ▸ hplace
    have hstation := hdrift.stations.get hplace hlt
    simp only [Cluster.mailbox?, List.getElem?_eq_getElem hplace, List.getElem?_eq_getElem hlt]
    exact hstation.mailbox
  · simp only [heq, Cluster.mailbox?, List.getElem?_append_left hplace]

/-! ### Queries whose response is there -/

/-- A query has returned a response, and nothing else. -/
def Yields (h : History σ) (id : Uuid) (r : Message) : Prop :=
  (∃ c a, .returned c a id (some r) ∈ h.notes) ∧
    ∀ c a r', .returned c a id r' ∈ h.notes → r' = some r

/-- A query has not returned yet, and its task may go on and returns a response with its next
step. -/
structure Holds (h : History σ) (t : Task) (id : Uuid) (r : Message) : Prop where
  canStep : h.cluster.canStep t = true
  waiting : ∀ c a r', .returned c a id r' ∉ h.notes
  yields : (h.run [t]).Yields id r

/-- The response to a query is there, and the query has not returned yet or has returned it. -/
def Settled (h : History σ) (x : Await) (r : Message) : Prop :=
  h.cluster.Waits x ⟨none, some (.answer r)⟩ ∨ h.Yields x.id r

theorem holds (hs : h.cluster.Sound P) (hsole : h.Sole) (hw : h.cluster.Waits x slot)
    (hslot : slot.outcome = some (.answer r)) : h.Holds x.task x.id r := by
  obtain ⟨work, hact, -, hid⟩ := hw.activity?
  have hnone := hsole.waiting _ _ _ _ hact hid
  obtain ⟨hstep, ⟨c, hret⟩, honly⟩ := hw.answered hs hslot
  refine ⟨hstep, hnone, ⟨c, x.node, List.mem_append_left _ hret⟩, fun c' a r' hret' => ?_⟩
  rcases List.mem_append.1 hret' with hnew | hold
  · exact honly c' a r' hnew
  · exact absurd hold (hnone c' a r')

/-- A query returns once. -/
theorem Next.yields (hnext : Next P h h') (hs : h.cluster.Sound P) (hsole : h.Sole) {id : Uuid}
    (hyields : h.Yields id r) : h'.Yields id r := by
  obtain ⟨⟨c, a, hret⟩, honly⟩ := hyields
  obtain ⟨new, hnotes, heffect⟩ := hnext.effect hs
  rw [Yields, hnotes]
  refine ⟨⟨c, a, List.mem_append_right _ hret⟩, fun c' a' r' hret' => ?_⟩
  rcases List.mem_append.1 hret' with hnew | hold
  · obtain ⟨t, before, hact, hid, -⟩ := heffect.of_mem_returned hnew
    exact absurd hret (hsole.waiting t a' before id hact hid c a (some r))
  · exact honly c' a' r' hold

/-- A response that is there stays until it is returned. -/
theorem Next.settled (hnext : Next P h h') (hs : h.cluster.Sound P) (hsole : h.Sole)
    (hdrawn : h'.cluster.drawn ≤ 2 ^ 128) (hsettled : h.Settled x r) : h'.Settled x r := by
  rcases hsettled with hw | hyields
  · rcases hnext.waits hs hsole hdrawn hw with hsame | rfl | ⟨e, -, hafter⟩
    · exact .inl hsame
    · exact .inr (holds hs hsole hw rfl).yields
    · exact .inl (by simpa using hafter)
  · exact .inr (hnext.yields hs hsole hyields)

theorem Reachable.steps (hr : Reachable P h) (hsteps : ReflTransGen (Next P) h h') :
    Reachable P h' := by
  induction hsteps with
  | refl => exact hr
  | tail _ hnext ih => exact ih.next hnext

theorem Reachable.drawn_le (hr : Reachable P h) (hsteps : ReflTransGen (Next P) h h') :
    h.cluster.drawn ≤ h'.cluster.drawn := by
  induction hsteps with
  | refl => exact le_refl _
  | tail hsteps hnext ih => exact ih.trans (hnext.drawn_le (hr.steps hsteps).sound)

theorem Reachable.settled (hr : Reachable P h) (hsteps : ReflTransGen (Next P) h h')
    (hdrawn : h'.cluster.drawn ≤ 2 ^ 128) (hsettled : h.Settled x r) : h'.Settled x r := by
  induction hsteps with
  | refl => exact hsettled
  | tail hsteps hnext ih =>
    have hr' := hr.steps hsteps
    have hle := (hnext.drawn_le hr'.sound).trans hdrawn
    exact hnext.settled hr'.sound (hr'.sole hle) hdrawn (ih hle)

/-- No other response to a query whose response is there can come. -/
theorem Settled.not_takes (hsettled : h.Settled x r) (hc : Correlated h) {place : Nat}
    {r' : Message} {w' : Cluster σ} (htakes : h.cluster.Takes place (.message r') w')
    (hquery : r'.query = false) : r'.correlation ≠ some x.id := by
  intro hid
  obtain ⟨station, f, links, hplace, hfollower, htake, -⟩ := htakes
  have htransit := Multiset.mem_of_le (FaithfulTransport.transit_take_message htake)
    (Multiset.mem_cons_self _ _)
  have hlinks : (x.id, Token.returning r') ∈ tokens.links h.cluster.links :=
    Multiset.mem_bind.2 ⟨_, htransit, by simp [tokens, hquery, hid]⟩
  rcases hsettled with hw | ⟨⟨c, a, hret⟩, -⟩
  · obtain ⟨s, work, hs, -, -, -, hslot⟩ := hw
    have hreply : s.node.messenger.replies.get? x.id = some (.answer r) :=
      congrArg Slot.outcome hslot
    have hstation : (x.id, Token.returning r) ∈ tokens.stations h.cluster.stations := by
      obtain ⟨R, hR, -⟩ := tokens.stations_set hs
      rw [hR, Measure.node, tokens.replies_eq hreply]
      simp [tokens]
    have honce := hc.coherent.once
    rw [Measure.cluster, Multiset.map_add, Multiset.map_add, Multiset.nodup_add] at honce
    have hthere := Multiset.mem_map_of_mem Prod.fst hstation
    have htravels := Multiset.mem_map_of_mem Prod.fst hlinks
    exact Multiset.disjoint_left.1 honce.2.2 (Multiset.mem_add.2 (.inr hthere)) htravels
  · obtain ⟨hnone, -⟩ := hc.returned c a x.id r hret
    exact hnone _ (Multiset.mem_add.2 (.inr hlinks))

end Returned

/-! ### Queries that wait while their link is spared -/

variable {P : Listeners Handler → Prop} {h h' : History Network} {x : Await} {b : String}

/-- Calm steps report nothing to the node of a query that waits. -/
theorem Calm.reported (hcalm : Calm P x.node b x.deadline h h') (hs : h.cluster.Sound P)
    {slot : Slot} (hw : h.cluster.Waits x slot) (hreported : h'.cluster.Reported x.place b) :
    h.cluster.Reported x.place b := by
  obtain ⟨k, hk, hreports⟩ := hreported
  obtain ⟨station, work, hplace, hnode, -⟩ := hw
  obtain ⟨hlt, -⟩ := List.getElem?_eq_some_iff.1 hplace
  rw [hcalm.next.mailbox? hlt] at hk
  have hmailbox : station.follower.map (·.mailbox) = some k := by
    rwa [Cluster.mailbox?, hplace] at hk
  have hbox := hs.kept k x.node ⟨station, List.mem_of_getElem? hplace, hmailbox, hnode⟩
  exact ⟨k, hk, hcalm.spares.reports hbox hreports⟩

/-- A query waits on in a calm step, if no report that its target is gone waits, or its response
comes. -/
theorem Calm.waits (hcalm : Calm P x.node b x.deadline h h') (hs : h.cluster.Sound P)
    (hsole : h.Sole) (hdrawn : h'.cluster.drawn ≤ 2 ^ 128)
    (hw : h.cluster.Waits x ⟨some b, none⟩) (hreported : ¬ h.cluster.Reported x.place b) :
    h'.cluster.Waits x ⟨some b, none⟩ ∨ ∃ r, h'.Settled x r := by
  rcases hcalm.next.waits hs hsole hdrawn hw with hsame | rfl | ⟨e, htakes, hafter⟩
  · exact .inl hsame
  · have hrests := hw.rests rfl hcalm.early
    have hstep : h.cluster.step x.task = h.cluster := by simp [Cluster.step, hrests]
    left
    change (h.cluster.step x.task).Waits x ⟨some b, none⟩
    rw [hstep]
    exact hw
  · cases e with
    | connected peer => exact .inl hafter
    | disconnected b' =>
      have hne : b ≠ b' := by
        rintro rfl
        obtain ⟨station, f, links, hplace, hfollower, htake, -⟩ := htakes
        refine hreported ⟨f.mailbox, ?_, Network.reports_of_take htake⟩
        simp [Cluster.mailbox?, hplace, hfollower]
      exact .inl (by simpa [Slot.after, hne] using hafter)
    | message m =>
      rw [Slot.after] at hafter
      split at hafter
      · exact .inr ⟨m, .inl hafter⟩
      · exact .inl hafter

theorem steps_of_calm {a : String} {deadline : Nat}
    (hcalm : ReflTransGen (Calm P a b deadline) h h') : ReflTransGen (Next P) h h' :=
  hcalm.lift id fun _ _ hstep => hstep.next

theorem Reachable.calm (hr : Reachable P h)
    (hcalm : ReflTransGen (Calm P x.node b x.deadline) h h')
    (hdrawn : h'.cluster.drawn ≤ 2 ^ 128) (hw : h.cluster.Waits x ⟨some b, none⟩)
    (hreported : ¬ h.cluster.Reported x.place b) :
    (h'.cluster.Waits x ⟨some b, none⟩ ∧ ¬ h'.cluster.Reported x.place b) ∨
      ∃ r, h'.Settled x r := by
  induction hcalm with
  | refl => exact .inl ⟨hw, hreported⟩
  | tail hsteps hstep ih =>
    have hr' := hr.steps (steps_of_calm hsteps)
    have hle := (hstep.next.drawn_le hr'.sound).trans hdrawn
    have hsole := hr'.sole hle
    rcases ih hle with ⟨hwaits, hnone⟩ | ⟨r, hsettled⟩
    · refine (hstep.waits hr'.sound hsole hdrawn hwaits hnone).imp_left fun hnext => ⟨hnext, ?_⟩
      exact fun hreport => hnone (hstep.reported hr'.sound hwaits hreport)
    · exact .inr ⟨r, hstep.next.settled hr'.sound hsole hdrawn hsettled⟩

/-- A query waits for its response. In every step until its node takes the response out of its
mailbox, both nodes stay, their link is not cut, and the time of the query is not over. If no report
that the target is gone waits in the mailbox at first, then the query returns this response and
nothing else, whatever happens afterwards. -/
theorem handed_response_returned {h₁ h₂ h₃ : History Network} {r : Message} (hr : Reachable P h)
    (hdrawn : h₃.cluster.drawn ≤ 2 ^ 128) (hwaits : h.cluster.Waits x ⟨some b, none⟩)
    (hreported : ¬ h.cluster.Reported x.place b)
    (hcalm : ReflTransGen (Calm P x.node b x.deadline) h h₁) (hnext : Next P h₁ h₂)
    (htakes : h₁.cluster.Takes x.place (.message r) h₂.cluster) (hresponse : r.isResponse = true)
    (hid : r.correlation = some x.id) (hrest : ReflTransGen (Next P) h₂ h₃) :
    h₃.Holds x.task x.id r ∨ h₃.Yields x.id r := by
  have hr₁ := hr.steps (steps_of_calm hcalm)
  have hr₂ := hr₁.next hnext
  have hr₃ := hr₂.steps hrest
  have hdrawn₂ := (hr₂.drawn_le hrest).trans hdrawn
  have hdrawn₁ := (hnext.drawn_le hr₁.sound).trans hdrawn₂
  have hsettled₂ : h₂.Settled x r := by
    rcases hr.calm hcalm hdrawn₁ hwaits hreported with ⟨hw, -⟩ | ⟨r', hsettled⟩
    · have hafter := htakes.waits hr₁.sound hw
      simp only [if_true, Slot.after, hresponse, hid, Option.isSome_some, Bool.and_self,
        decide_true] at hafter
      exact .inl hafter
    · have hquery : r.query = false := by simp_all [Message.isResponse]
      exact absurd hid (hsettled.not_takes (hr₁.correlated hdrawn₁) htakes hquery)
  rcases hr₂.settled hrest hdrawn hsettled₂ with hw | hyields
  · exact .inl (holds hr₃.sound (hr₃.sole hdrawn) hw rfl)
  · exact .inr hyields

/-! ### Reports about an earlier link -/

/-- What happens to the connections by themselves happens in a step of a history. -/
theorem Reachable.relink {links : Network} (hr : Reachable P h)
    (hweakens : FaithfulTransport.Weakens h.cluster.links links) :
    Reachable P ⟨{ h.cluster with links }, h.notes⟩ := by
  refine hr.next (.drift h _ ⟨List.forall₂_same.2 fun s hs => ?_, hweakens, rfl, rfl, rfl,
    hr.sound.now⟩)
  have hsound := hr.sound.stations s hs
  exact ⟨rfl, hsound.self, rfl, fun _ he => he, hsound.listeners, rfl, rfl, rfl, rfl⟩

/-- Two nodes meet, something happens to the network, and node "a" writes a query to node "b". -/
def asking (change : Network → Network) : History Network :=
  let w := Cluster.gathering echoing
  run ⟨(({ w with links := change w.links } : Cluster Network).spawn 0 (.query (.opening
    { channel := "echo", sender := "a", targets := [.node "b"], content := [7] } 5000))).2, []⟩
    [.job 0, .job 0]

/-- The query that node "a" waits for. -/
def asked : Await := { task := .job 0, place := 0, node := "a", id := .fresh 0, deadline := 5000 }

/-- Node "b" takes so many events, the query last, and answers it. Node "a" takes one event less. -/
def answering (events : Nat) : List Task :=
  .replicate events (.follow 1) ++ .replicate 5 (.drain 1 0) ++ .replicate (events - 1) (.follow 0)

theorem reachable_asking {change : Network → Network}
    (h : FaithfulTransport.Weakens (Cluster.gathering echoing).links
      (change (Cluster.gathering echoing).links)) :
    Reachable (fun _ => True) (asking change) := by
  have hgathered : Reachable (fun _ => True) ⟨Cluster.gathering echoing, []⟩ :=
    reachable_gathering (by decide) fun _ _ => trivial
  exact Reachable.run (.next (hgathered.relink h) (.ask _ 0 _ rfl _ _)) _

theorem answer_returned_undisturbed :
    Reachable (fun _ => True) (asking id) ∧
      (asking id).cluster.Waits asked ⟨some "b", none⟩ ∧ ¬ (asking id).cluster.Reported 0 "b" ∧
        (((asking id).run (answering 2)).run [.follow 0]).Holds (.job 0) (.fresh 0) echoed := by
  have hr : Reachable (fun _ => True) (asking id) := reachable_asking ⟨le_refl _, fun _ _ h => h⟩
  have hwaits : (asking id).cluster.Waits asked ⟨some "b", none⟩ := ⟨_, _, rfl, rfl, rfl, rfl, rfl⟩
  have hreported : ¬ (asking id).cluster.Reported 0 "b" := by
    rintro ⟨k, hk, box, hbox, hmem⟩
    cases hk
    cases hbox
    simp at hmem
  have htakes : ((asking id).run (answering 2)).cluster.Takes 0 (.message echoed)
      (((asking id).run (answering 2)).run [.follow 0]).cluster :=
    Cluster.takes_of_mail? (by decide +kernel)
  have hreturned :
      (((asking id).run (answering 2)).run [.follow 0]).Holds asked.task asked.id echoed ∨
        (((asking id).run (answering 2)).run [.follow 0]).Yields asked.id echoed :=
    handed_response_returned hr (by decide +kernel) hwaits hreported
      (calm_run (by decide) (answering 2)) (.task _ (.follow 0)) htakes rfl rfl .refl
  -- the task of the query has not taken its step yet
  refine ⟨hr, hwaits, hreported, hreturned.resolve_right fun ⟨⟨c, a, hret⟩, _⟩ => ?_⟩
  have hnone : ∀ n ∈ (((asking id).run (answering 2)).run [.follow 0]).notes,
      (n matches .returned ..) = false := by decide +kernel
  cases hnone _ hret

/-- The link between two nodes is cut and restored. -/
def restored (n : Network) : Network := (n.cut "a" "b").heal "a" "b"

/-- A query is written after its link was restored, its response comes in time while nothing happens
to the link, and yet it returns without a response, because its node hears only then that the link
had been cut. -/
theorem stale_report_ends_query :
    Reachable (fun _ => True) (asking restored) ∧
      (asking restored).cluster.Waits asked ⟨some "b", none⟩ ∧
        ReflTransGen (Calm (fun _ => True) "a" "b" 5000) (asking restored)
          ((asking restored).run (answering 4)) ∧
        ((asking restored).run (answering 4)).cluster.Takes 0 (.message echoed)
          (((asking restored).run (answering 4)).run [.follow 0]).cluster ∧
        echoed.isResponse = true ∧ echoed.correlation = some (.fresh 0) ∧
          .returned (.user 0) "a" (.fresh 0) none ∈
            (((asking restored).run (answering 4)).run [.follow 0, .job 0]).notes ∧
          ¬ (((asking restored).run (answering 4)).run [.follow 0, .job 0]).Holds (.job 0)
            (.fresh 0) echoed ∧
          ¬ (((asking restored).run (answering 4)).run [.follow 0, .job 0]).Yields (.fresh 0)
            echoed := by
  have hcut := Network.weakens_cut (Cluster.gathering echoing).links "a" "b"
  have hheal := Network.weakens_heal ((Cluster.gathering echoing).links.cut "a" "b") "a" "b"
  have hr : Reachable (fun _ => True) (asking restored) :=
    reachable_asking ⟨hheal.transit.trans hcut.transit,
      fun i k h => hcut.boxes i k (hheal.boxes i k h)⟩
  have hret : .returned (.user 0) "a" (.fresh 0) none ∈
      (((asking restored).run (answering 4)).run [.follow 0, .job 0]).notes := by decide +kernel
  refine ⟨hr, ⟨_, _, rfl, rfl, rfl, rfl, rfl⟩, calm_run (by decide) _,
    Cluster.takes_of_mail? (by decide +kernel), rfl, rfl, hret,
    fun hholds => hholds.waiting _ _ _ hret, fun hyields => ?_⟩
  cases hyields.2 _ _ _ hret

end History

end Fleet

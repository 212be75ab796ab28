import Fleet.Proofs.Cluster.Effects
import Fleet.Proofs.Cluster.Handling

/-!
# What stands in the queues of a node

A queue holds the messages of one sender, and the work in it is about such a message too. Only a
query to the head ever makes a listener place a service. This holds of a node with the standard
listeners whatever comes to it, and whatever it does.
-/

namespace Fleet

/-- The work is about a message of a sender, and a listener places a service, or is about to, only
for a query to the head. -/
def Dispatch.From (sender : String) : Dispatch → Prop
  | .opening d => d.message.sender = sender
  | .firing _ e rest => e.message.sender = sender ∧
      (.startAsHead ∈ rest → e.message.channel = placeChannel)
  | .placing _ e _ _ => e.message.sender = sender ∧ e.message.query = true ∧
      e.message.channel = placeChannel
  | .answering _ e => e.message.sender = sender
  | .done => True

/-- All that stands in a queue comes from its sender. -/
structure Inbound.Queue.Sorted (q : Queue Dispatch) : Prop where
  waiting : ∀ d ∈ q.waiting, d.message.sender = q.sender
  current : ∀ d, q.current = some d → d.From q.sender

/-- Every queue is sorted, and the open queue of a sender is one of its queues. -/
structure Inbound.Sorted (b : Inbound Dispatch) : Prop where
  queues : ∀ n q, b.queues.get? n = some q → q.Sorted
  number : ∀ sender n, b.bySender.get? sender = some n → n < b.next
  sender : ∀ sender n q, b.bySender.get? sender = some n → b.queues.get? n = some q →
    q.sender = sender

namespace Dispatch

variable {σ : Type} [FaithfulTransport σ] {sender : String}

theorem from_fires {ls : Listeners Handler} (hls : ls.Standard) (d : Delivery)
    (h : d.message.sender = sender) :
    From sender (.firing d.ticket ⟨d.message, none⟩ (ls.handlers d.message.channel)) := by
  refine ⟨h, fun hmem => ?_⟩
  by_contra hplace
  by_cases hstart : d.message.channel = startChannel
  · rw [hstart] at hmem
    rcases hls.start with hnone | hone
    · simp [hnone] at hmem
    · simp [hone] at hmem
  · exact hls.others _ hstart hplace _ hmem (.inr rfl)

/-- The work goes on about the same message. -/
theorem Move.keeps_from {s s' : Site σ} {d d' : Dispatch} (hmove : Dispatch.Move s d d' s')
    (hls : s.node.messenger.listeners.Standard) (h : d.From sender) : d'.From sender := by
  have hrest : ∀ {e e' : Event} {handler : Handler} {rest : List Handler} {ticket ticket' : Nat},
      e'.message = e.message → From sender (.firing ticket e (handler :: rest)) →
        From sender (.firing ticket' e' rest) := by
    intro e e' handler rest ticket ticket' hm ⟨hsender, hchannel⟩
    exact ⟨by rw [hm, hsender], fun hmem => by rw [hm]; exact hchannel (.tail _ hmem)⟩
  cases hmove with
  | opens d => exact from_fires hls d h
  | ends =>
    split
    · exact h.1
    · trivial
  | records => exact hrest (Event.answered_answerAll _ _).message h
  | stores | ignores => exact hrest rfl h
  | starts => exact hrest (Event.answered_answerWith _ _).message h
  | places hspec => exact ⟨h.1, (ofBytes?_of_request? hspec).1, h.2 List.mem_cons_self⟩
  | creates => exact h
  | @resumes ticket e r rest =>
    have hm := (Event.answered_answerWith e r).message
    exact ⟨by rw [hm]; exact h.1, fun _ => by rw [hm]; exact h.2.2⟩
  | answers | rests => trivial

end Dispatch

namespace Inbound

variable {b : Inbound Dispatch}

theorem sorted_empty : Sorted .empty :=
  ⟨fun _ _ h => (nomatch h), fun _ _ h => (nomatch h), fun _ _ _ h => (nomatch h)⟩

/-- A queue changes what stands in it. -/
theorem Sorted.modify (h : b.Sorted) {n : Nat} {f : Queue Dispatch → Queue Dispatch}
    (hsender : ∀ q, (f q).sender = q.sender)
    (hf : ∀ q, b.queues.get? n = some q → q.Sorted → (f q).Sorted) :
    Sorted { b with queues := b.queues.modify n f } := by
  have hget : ∀ k q', (b.queues.modify n f).get? k = some q' →
      ∃ q, b.queues.get? k = some q ∧ q'.sender = q.sender ∧ q'.Sorted := by
    intro k q' hq'
    rw [Table.get?_modify] at hq'
    split at hq'
    · next heq =>
      obtain ⟨q, hq, rfl⟩ := Option.map_eq_some_iff.1 hq'
      obtain rfl : k = n := heq
      exact ⟨q, hq, hsender q, hf q hq (h.queues _ q hq)⟩
    · exact ⟨q', hq', rfl, h.queues k q' hq'⟩
  refine ⟨fun k q' hq' => ?_, h.number, fun sender k q' hk hq' => ?_⟩
  · obtain ⟨-, -, -, hsorted⟩ := hget k q' hq'
    exact hsorted
  · obtain ⟨q, hq, heq, -⟩ := hget k q' hq'
    rw [heq]
    exact h.sender sender k q hk hq

/-- A message goes to the queue of its sender. -/
theorem Sorted.push (h : b.Sorted) (d : Delivery) : (b.push d).Sorted := by
  unfold Inbound.push
  dsimp only
  split
  · next n hn =>
    refine h.modify (fun q => rfl) fun q hq hsorted => ⟨fun d' hd' => ?_, hsorted.current⟩
    rcases List.mem_append.1 hd' with hold | hnew
    · exact hsorted.waiting d' hold
    · rw [List.mem_singleton.1 hnew]
      exact (h.sender _ n q hn hq).symm
  · next hnone =>
    refine ⟨fun k q hq => ?_, fun sender k hk => ?_, fun sender k q hk hq => ?_⟩
    · dsimp only at hq
      rw [Table.get?_insert] at hq
      split at hq
      · cases hq
        exact ⟨by simp, by simp⟩
      · exact h.queues k q hq
    · dsimp only at hk ⊢
      rw [Table.get?_insert] at hk
      split at hk
      · cases hk
        exact Nat.lt_succ_self _
      · exact Nat.lt_succ_of_lt (h.number sender k hk)
    · dsimp only at hk hq
      rw [Table.get?_insert] at hk hq
      split at hk
      · next heq =>
        cases hk
        rw [if_pos rfl] at hq
        cases hq
        exact heq.symm
      · have hne : k ≠ b.next := (h.number sender k hk).ne
        rw [if_neg hne] at hq
        exact h.sender sender k q hk hq

theorem Sorted.close (h : b.Sorted) (sender : String) : (b.close sender).2.Sorted := by
  have hget : ∀ other n, (b.bySender.erase sender).get? other = some n →
      b.bySender.get? other = some n := by
    intro other n hn
    rw [Table.get?_erase] at hn
    split at hn
    · cases hn
    · exact hn
  exact ⟨h.queues, fun other n hn => h.number other n (hget other n hn),
    fun other n q hn hq => h.sender other n q (hget other n hn) hq⟩

/-- What is being done in a queue changes. -/
theorem Sorted.setCurrent (h : b.Sorted) {n : Nat} {q : Queue Dispatch} {work : Option Dispatch}
    (hq : b.queues.get? n = some q) (hwork : ∀ d, work = some d → d.From q.sender) :
    (b.setCurrent n work).Sorted := by
  refine h.modify (fun q => rfl) fun q' hq' hsorted => ⟨hsorted.waiting, fun d hd => ?_⟩
  obtain rfl := Option.some.inj (hq.symm.trans hq')
  exact hwork d hd

theorem Sorted.startNext (h : b.Sorted) (n : Nat) : (b.startNext n .opening).Sorted := by
  refine h.modify (fun q => ?_) fun q hq hsorted => ?_
  · rw [Queue.startNext]
    split <;> rfl
  · rw [Queue.startNext]
    split
    · exact hsorted
    · next d rest hwaiting =>
      refine ⟨fun d' hd' => hsorted.waiting d' ?_, fun d' hd' => ?_⟩
      · rw [hwaiting]
        exact .tail _ hd'
      · cases hd'
        exact hsorted.waiting d (hwaiting ▸ List.mem_cons_self)

end Inbound

/-- An event keeps the queues of a node sorted. -/
theorem Site.sorted_handle {σ : Type} {s : Site σ} (h : s.node.inbound.Sorted)
    (e : TransportEvent) : (s.handle e).node.inbound.Sorted := by
  cases e with
  | connected peer =>
    obtain ⟨roster, heq, -⟩ := s.node.connected_eq peer
    change (s.node.connected peer).inbound.Sorted
    rw [heq]
    exact h
  | disconnected id => exact h.close id
  | message m =>
    unfold handle receive
    dsimp only
    split
    · split
      · exact h
      · exact h
    · exact h.push _

/-! ### Clusters -/

/-- All nodes have sorted queues. -/
def Cluster.Sorted {σ : Type} (w : Cluster σ) : Prop := ∀ s ∈ w.stations, s.node.inbound.Sorted

variable {σ : Type} [FaithfulTransport σ]

namespace Cluster

variable {P : Listeners Handler → Prop} {w w' : Cluster σ} {t : Task}

omit [FaithfulTransport σ] in
/-- One node has changed. -/
theorem Sorted.set (h : w.Sorted) {place : Nat} {station : Station}
    (hstations : w'.stations = w.stations.set place station)
    (hstation : station.node.inbound.Sorted) : w'.Sorted := by
  intro s hs
  rw [hstations] at hs
  rcases List.mem_or_eq_of_mem_set hs with hold | rfl
  · exact h s hold
  · exact hstation

theorem Move.sorted (hmove : Move w t w') (hw : w.Sound Listeners.Standard) (h : w.Sorted) :
    w'.Sorted := by
  have hold : ∀ {place : Nat} {station : Station}, w.stations[place]? = some station →
      station.node.inbound.Sorted := fun hplace => h _ (List.mem_of_getElem? hplace)
  cases hmove with
  | @job n j station work s hjob hplace hmove =>
    obtain ⟨creations, heq⟩ := retire_eq s j.work work
    refine h.set rfl ?_
    have hinbound : (retire j.work work s).node.inbound = station.node.inbound := by
      rw [heq]
      exact hmove.inbound
    rw [hinbound]
    exact hold hplace
  | @works place queue station q d d' s hplace hqueue hcurrent hmove =>
    have hls := (hw.stations station (List.mem_of_getElem? hplace)).listeners
    have hsorted : s.node.inbound.Sorted := hmove.inbound ▸ hold hplace
    have hq : s.node.inbound.queues.get? queue = some q := hmove.inbound ▸ hqueue
    refine h.set rfl (hsorted.setCurrent hq fun d'' hd'' => ?_)
    cases hd''
    exact hmove.keeps_from hls (((hold hplace).queues queue q hqueue).current d hcurrent)
  | closes hplace hqueue hcurrent =>
    exact h.set rfl ((hold hplace).setCurrent hqueue (by simp))
  | takes hplace hqueue => exact h.set rfl ((hold hplace).startNext _)
  | @follows place station f e links hplace hfollower htake =>
    exact h.set rfl (Site.sorted_handle (hold hplace) e)
  | looks hplace hfollower hmailbox hlinks =>
    have hstation := hold hplace
    exact h.set rfl hstation
  | @reports place k station publishers hplace =>
    refine h.set rfl ?_
    change ((w.site station).publish w.cpu).2.node.inbound.Sorted
    rw [((w.site station).publish_spec w.cpu).1]
    exact hold hplace
  | waits publishers hplace =>
    have hstation := hold hplace
    exact h.set rfl hstation
  | rests => exact h

end Cluster

namespace History

variable {P : Listeners Handler → Prop} {h h' : History σ}

theorem Next.sorted (hnext : Next Listeners.Standard h h')
    (hs : h.cluster.Sound Listeners.Standard) (hsorted : h.cluster.Sorted) :
    h'.cluster.Sorted := by
  rcases hnext.kinds with ⟨t, rfl⟩ | ⟨_, _, _, _, hcalled⟩ | ⟨n, -, heq⟩ | hdrift |
    ⟨links, s, hfresh, heq⟩
  · exact (Cluster.move_step h.cluster t).sorted hs hsorted
  · refine hsorted.set hcalled.stations ?_
    rw [hcalled.node, hcalled.inbound]
    exact hsorted _ (List.mem_of_getElem? hcalled.found)
  · rw [heq]
    exact hsorted
  · intro s' hs'
    obtain ⟨s, hs, hstation⟩ := hdrift.exists_station hs'
    exact hstation.inbound ▸ hsorted s hs
  · intro s' hs'
    rw [heq] at hs'
    rcases List.mem_append.1 hs' with hs' | hs'
    · exact hsorted s' hs'
    · rw [List.mem_singleton.1 hs', hfresh.inbound]
      exact Inbound.sorted_empty

theorem Reachable.sorted (hr : Reachable Listeners.Standard h) : h.cluster.Sorted := by
  induction hr with
  | empty w hstations =>
    intro s hs
    dsimp only at hs
    rw [hstations] at hs
    cases hs
  | next hr hnext ih => exact hnext.sorted hr.sound ih

end History

end Fleet

import Fleet.Messenger.Listeners
import Fleet.Proofs.Table
import Mathlib.Data.List.DropRight
import Mathlib.Data.List.Sort

/-!
# The order of listeners

A registration gets the next number and sorts its channel by priority and number. Since numbers only
rise, this puts the new listener before the first of a higher priority and leaves the others where
they are. So the listeners of a channel stand by priority, and those of one priority as they were
registered, however registrations and removals on all channels follow each other.

## Main definitions

* `Listeners.Entry.Precedes`, `Listeners.Ranked` — the entries of a channel rise, and their numbers
  have been given out.
* `Listeners.Op`, `Listeners.after` — registrations and removals, and what they leave.
* `Listeners.registered` — the listeners of a channel as they were registered.
* `Listeners.InOrder` — the order in which listeners are called.

## Main statements

* `Listeners.Ranked.sort_concat` — sorting after a registration inserts the new entry.
* `Listeners.ranked_after`, `Listeners.inOrder_after` — the entries of every channel are ranked, and
  its listeners are in order.
* `Listeners.entries_register_wrapped` — numbers of 64 bits that wrap do as well.
* `Listeners.called_in_order` — which listeners a message calls, in which order, and how many.
-/

namespace Fleet.Listeners

open List

variable {α : Type}

/-! ### Sorting after a registration -/

/-- One entry comes before another: by priority, and by number among equal priorities. -/
def Entry.Precedes (a b : Entry α) : Prop :=
  a.priority < b.priority ∨ a.priority = b.priority ∧ a.number < b.number

/-- The entries of a channel rise, and all their numbers have been given out. -/
structure Ranked (next : Nat) (order : List (Entry α)) : Prop where
  rising : order.Pairwise Entry.Precedes
  below : ∀ a ∈ order, a.number < next

namespace Ranked

variable {next : Nat} {order : List (Entry α)} {e : Entry α}

theorem nil (next : Nat) : Ranked next ([] : List (Entry α)) := ⟨.nil, fun _ h => by cases h⟩

theorem mono {later : Nat} (h : Ranked next order) (hle : next ≤ later) : Ranked later order :=
  ⟨h.rising, fun a ha => Nat.lt_of_lt_of_le (h.below a ha) hle⟩

theorem rising_orderedInsert (hrising : order.Pairwise Entry.Precedes)
    (hbelow : ∀ a ∈ order, a.number < e.number) :
    (order.orderedInsert (·.priority < ·.priority) e).Pairwise Entry.Precedes := by
  induction order with
  | nil => exact pairwise_singleton _ e
  | cons a rest ih =>
    obtain ⟨hfirst, hrest⟩ := pairwise_cons.1 hrising
    have ha := hbelow a mem_cons_self
    rw [orderedInsert_cons]
    split
    · next hlt =>
      refine pairwise_cons.2 ⟨fun b hb => .inl ?_, hrising⟩
      rcases mem_cons.1 hb with rfl | hb
      · exact hlt
      · have hab := hfirst b hb
        rw [Entry.Precedes] at hab
        omega
    · next hle =>
      refine pairwise_cons.2
        ⟨fun b hb => ?_, ih hrest fun b hb => hbelow b (mem_cons_of_mem a hb)⟩
      rcases mem_cons.1 ((perm_orderedInsert _ e rest).mem_iff.1 hb) with rfl | hb
      · rw [Entry.Precedes]
        omega
      · exact hfirst b hb

/-- An entry with the next number goes before the first of a higher priority. -/
theorem place (h : Ranked next order) (he : e.number = next) :
    Ranked (next + 1) (order.orderedInsert (·.priority < ·.priority) e) := by
  subst he
  refine ⟨rising_orderedInsert h.rising h.below, fun a ha => ?_⟩
  rcases mem_cons.1 ((perm_orderedInsert _ e order).mem_iff.1 ha) with rfl | ha
  · exact Nat.lt_succ_self _
  · exact Nat.lt_succ_of_lt (h.below a ha)

/-- The listeners of ranked entries stand by priority. -/
theorem ascending (h : Ranked next order) :
    (order.map (·.toListener)).Pairwise (·.priority ≤ ·.priority) :=
  pairwise_map.2 (h.rising.imp fun hab => by rw [Entry.Precedes] at hab; omega)

/-- Entries that are ranked are what any arrangement of them is sorted into. -/
theorem sort_eq {stored : List (Entry α)} (h : Ranked next order) (hs : stored.Perm order) :
    stored.mergeSort Entry.before = order := by
  have hbefore (a b : Entry α) : a.before b = true ↔
      a.priority < b.priority ∨ a.priority = b.priority ∧ a.number ≤ b.number := by
    simp [Entry.before]
  refine mergeSort_eq_of_perm (fun a b c => ?_) (fun a b => ?_) (h.rising.imp fun hab => ?_) hs
  · simp only [hbefore]
    omega
  · simp only [Bool.or_eq_true, hbefore]
    omega
  · rw [Entry.Precedes] at hab
    simp only [← Bool.not_eq_true, hbefore]
    omega

/-- Sorting after a registration inserts the new entry and moves no other. -/
theorem sort_concat (h : Ranked next order) (he : e.number = next) :
    (order ++ [e]).mergeSort Entry.before = order.orderedInsert (·.priority < ·.priority) e :=
  (h.place he).sort_eq ((perm_append_singleton e order).trans (perm_orderedInsert _ e order).symm)

end Ranked

/-! ### One channel -/

/-- Listeners that were registered one after another are in order: by priority, and those of one
priority as they were registered. -/
structure InOrder (arrivals order : List (Listener α)) : Prop where
  /-- Every listener is there as often as it was registered, and no other one is. -/
  perm : order.Perm arrivals
  ascending : order.Pairwise (·.priority ≤ ·.priority)
  stable : ∀ p, order.filter (·.priority = p) = arrivals.filter (·.priority = p)

variable {l : Listener α} {order arrivals : List (Listener α)}

/-- A new listener comes after those of its priority, and all others stay as they are. -/
theorem filter_orderedInsert (h : order.Pairwise (·.priority ≤ ·.priority)) (p : Int) :
    (order.orderedInsert (·.priority < ·.priority) l).filter (·.priority = p) =
      order.filter (·.priority = p) ++ [l].filter (·.priority = p) := by
  induction order with
  | nil => rfl
  | cons a rest ih =>
    obtain ⟨hfirst, hrest⟩ := pairwise_cons.1 h
    rw [orderedInsert_cons]
    split
    · next hlt =>
      by_cases hp : l.priority = p
      · -- what follows has a higher priority, the rest because it is ascending
        have hnone : (a :: rest).filter (·.priority = p) = [] := by
          refine filter_eq_nil_iff.2 fun b hb => ?_
          have hle : a.priority ≤ b.priority := by
            rcases mem_cons.1 hb with rfl | hb
            · exact Int.le_refl _
            · exact hfirst b hb
          have hne : b.priority ≠ p := by omega
          simpa using hne
        rw [filter_cons_of_pos (by simpa using hp), hnone, nil_append,
          filter_cons_of_pos (by simpa using hp), filter_nil]
      · have hnone : [l].filter (·.priority = p) = [] := by simpa using hp
        rw [filter_cons_of_neg (by simpa using hp), hnone, append_nil]
    · rw [filter_cons, filter_cons, ih hrest]
      split <;> rfl

theorem toListener_orderedInsert (e : Entry α) (order : List (Entry α)) :
    (order.orderedInsert (·.priority < ·.priority) e).map (·.toListener) =
      (order.map (·.toListener)).orderedInsert (·.priority < ·.priority) e.toListener :=
  map_orderedInsert _ _ _ order e (fun _ _ => .rfl) fun _ _ => .rfl

theorem InOrder.nil : InOrder ([] : List (Listener α)) [] := ⟨.refl _, .nil, fun _ => rfl⟩

/-- Another listener takes its place. -/
theorem InOrder.insert (h : InOrder arrivals order)
    (hascending : (order.orderedInsert (·.priority < ·.priority) l).Pairwise
      (·.priority ≤ ·.priority)) :
    InOrder (arrivals ++ [l]) (order.orderedInsert (·.priority < ·.priority) l) := by
  refine ⟨?_, hascending, fun p => ?_⟩
  · exact ((perm_orderedInsert _ l order).trans (h.perm.cons l)).trans
      (perm_append_singleton l _).symm
  · rw [filter_orderedInsert h.ascending, h.stable, filter_append]

/-! ### All channels -/

/-- What is done to listeners. -/
inductive Op (α : Type) where
  | register (channel : String) (priority : Int) (handler : α)
  | unregister (channel : String)

namespace Op

/-- What it leaves. -/
def perform (ls : Listeners α) : Op α → Listeners α
  | .register channel priority handler => ls.register channel priority handler
  | .unregister channel => (ls.unregister channel).2

/-- The listener that is registered on a channel. -/
def listener? (channel : String) : Op α → Option (Listener α)
  | .register c priority handler => if c = channel then some ⟨priority, handler⟩ else none
  | .unregister _ => none

/-- Whether the listeners of a channel are taken away. -/
def clears (channel : String) : Op α → Bool
  | .register .. => false
  | .unregister c => c = channel

end Op

/-- The listeners after a number of operations, none at first. -/
def after (ops : List (Op α)) : Listeners α := ops.foldl Op.perform empty

/-- The listeners registered on a channel since its listeners were last taken away, in the order of
their registration. -/
def registered (channel : String) (ops : List (Op α)) : List (Listener α) :=
  (ops.rtakeWhile fun op => !op.clears channel).filterMap (·.listener? channel)

theorem after_concat (ops : List (Op α)) (op : Op α) :
    after (ops ++ [op]) = op.perform (after ops) :=
  foldl_concat ..

theorem registered_concat (channel : String) (ops : List (Op α)) (op : Op α) :
    registered channel (ops ++ [op]) =
      if op.clears channel then []
      else registered channel ops ++ (op.listener? channel).toList := by
  rw [registered]
  split
  · next h => rw [rtakeWhile_concat_neg _ _ _ (by simp [h])]; rfl
  · next h =>
    rw [rtakeWhile_concat_pos _ _ _ (by simpa using h), filterMap_append]
    cases hop : op.listener? channel <;> simp [registered, hop]

/-- The listeners of a channel, in their order. -/
def on (ls : Listeners α) (channel : String) : List (Listener α) :=
  (ls.entries channel).map (·.toListener)

theorem entries_register (ls : Listeners α) (channel other : String) (priority : Int)
    (handler : α) :
    (ls.register channel priority handler).entries other =
      if other = channel then
        (ls.entries channel ++ [ls.entry ⟨priority, handler⟩]).mergeSort Entry.before
      else ls.entries other := by
  rw [entries, register, Table.get?_insert]
  split <;> rfl

theorem entries_unregister (ls : Listeners α) (channel other : String) :
    (ls.unregister channel).2.entries other =
      if other = channel then [] else ls.entries other := by
  rw [entries, unregister, Table.get?_erase]
  split <;> rfl

/-- Every operation keeps the entries of every channel ranked. -/
theorem Ranked.perform {ls : Listeners α} {channel : String}
    (h : Ranked ls.next (ls.entries channel)) (op : Op α) :
    Ranked (op.perform ls).next ((op.perform ls).entries channel) := by
  cases op with
  | register c priority handler =>
    rw [Op.perform, entries_register]
    split
    · next hc =>
      subst hc
      rw [h.sort_concat rfl]
      exact h.place rfl
    · exact h.mono (Nat.le_succ _)
  | unregister c =>
    rw [Op.perform, entries_unregister]
    split
    · exact .nil _
    · exact h

/-- Every operation keeps the listeners of every channel in order. -/
theorem InOrder.perform {channel : String} {ops : List (Op α)} {ls : Listeners α}
    (hranked : Ranked ls.next (ls.entries channel))
    (h : InOrder (registered channel ops) (ls.on channel)) (op : Op α) :
    InOrder (registered channel (ops ++ [op])) ((op.perform ls).on channel) := by
  rw [registered_concat]
  cases op with
  | register c priority handler =>
    rw [if_neg (by simp [Op.clears]), Op.perform, on, entries_register, Op.listener?]
    by_cases hc : channel = c
    · subst hc
      have hascending := (hranked.place (e := ls.entry ⟨priority, handler⟩) rfl).ascending
      rw [toListener_orderedInsert] at hascending
      rw [if_pos rfl, if_pos rfl, hranked.sort_concat rfl, toListener_orderedInsert]
      exact h.insert hascending
    · rw [if_neg hc, if_neg (Ne.symm hc)]
      simpa [on] using h
  | unregister c =>
    rw [Op.perform, on, entries_unregister, Op.clears]
    by_cases hc : channel = c
    · subst hc
      rw [if_pos rfl, if_pos (by simp)]
      exact .nil
    · rw [if_neg hc, if_neg (by simpa using Ne.symm hc)]
      simpa [Op.listener?, on] using h

/-- The entries of every channel are ranked, whatever was done before. -/
theorem ranked_after (ops : List (Op α)) (channel : String) :
    Ranked (after ops).next ((after ops).entries channel) := by
  induction ops using reverseRecOn with
  | nil => exact .nil _
  | append_singleton ops op ih =>
    rw [after_concat]
    exact ih.perform op

/-- The listeners of every channel are in order, whatever was done before. -/
theorem inOrder_after (ops : List (Op α)) (channel : String) :
    InOrder (registered channel ops) ((after ops).on channel) := by
  induction ops using reverseRecOn with
  | nil => exact .nil
  | append_singleton ops op ih =>
    rw [after_concat]
    exact ih.perform (ranked_after ops channel) op

theorem next_after_le (ops : List (Op α)) : (after ops).next ≤ ops.length := by
  induction ops using reverseRecOn with
  | nil => exact Nat.le_refl _
  | append_singleton ops op ih =>
    rw [after_concat, length_append]
    cases op with
    | register => exact Nat.succ_le_succ ih
    | unregister => exact Nat.le_succ_of_le ih

/-- With numbers of 64 bits that wrap a registration sorts its channel into the same order, unless
so many listeners have been registered that a number comes a second time. -/
theorem entries_register_wrapped {ops : List (Op α)} (hops : ops.length < 2 ^ 64)
    (channel : String) (priority : Int) (handler : α) :
    (((after ops).entries channel ++ [(after ops).entry ⟨priority, handler⟩]).mergeSort fun a b =>
      a.priority < b.priority ||
        a.priority = b.priority && UInt64.ofNat a.number ≤ UInt64.ofNat b.number) =
      ((after ops).register channel priority handler).entries channel := by
  have hbelow (a : Entry α) (ha : a ∈ (after ops).entries channel ++
      [(after ops).entry ⟨priority, handler⟩]) : a.number < UInt64.size := by
    have hnext := Nat.lt_of_le_of_lt (next_after_le ops) hops
    rcases mem_append.1 ha with ha | ha
    · exact Nat.lt_trans ((ranked_after ops channel).below a ha) hnext
    · rw [mem_singleton.1 ha]
      exact hnext
  rw [entries_register, if_pos rfl]
  refine mergeSort_congr fun a ha b hb => ?_
  simp only [Entry.before, UInt64.ofNat_le_iff_le (hbelow a ha) (hbelow b hb)]

/-- A message calls the listeners that were registered on its channel since the listeners of this
channel were last taken away, each as often as it was registered, the lower priorities first and
those of one priority in the order of their registration. Their number is told by the call, by the
count and by the removal. -/
theorem called_in_order (ops : List (Op α)) (channel : String) :
    ∃ order, InOrder (registered channel ops) order ∧
      (∀ {β : Type} (call : β → α → β) (b : β), (after ops).fire channel call b =
        (order.length, order.foldl (fun b l => call b l.handler) b)) ∧
      (after ops).count channel = order.length ∧
      ((after ops).unregister channel).1 = order.length := by
  have hlength : ((after ops).entries channel).length = ((after ops).on channel).length :=
    length_map _ |>.symm
  refine ⟨(after ops).on channel, inOrder_after ops channel, fun call b => ?_, hlength, hlength⟩
  rw [fire, handlers, length_map, foldl_map, hlength, on, foldl_map]

/-- Two channels, equal and negative priorities, and a removal in between. -/
example : (after [.register "c" 0 "gone", .unregister "c", .register "c" 64 "last",
    .register "d" 0 "other", .register "c" 0 "first", .register "c" 0 "second",
    .register "c" (-64) "early"]).handlers "c" = ["early", "first", "second", "last"] := by
  cbv

end Fleet.Listeners

import Fleet.Proofs.Transport.Mailboxes

/-!
# What nodes are told of their links

Nodes join a network and leave it, and links between them are cut and restored.  A network keeps the
links that are cut, and tells the nodes in their mailboxes what becomes of their peers.  The two
agree but for one case: a node that joins is introduced to all that are there, also to those from
which its link is cut.  Such a link is overlooked, until it is restored.

## Main definitions

* `Network.Op`, `Network.Change` — the operations, and what each does to a network.
* `Network.Cut`, `Network.Overlooked` — what has become of a link after some operations.
* `Network.Recalls` — a network is in the state to which some operations have led.
* `Network.Informs` — what waits for a node agrees with the state of its links.

## Main statements

* `Network.Recalls.change`, `Network.Informs.change` — every operation keeps both.
* `Network.Recalls.informs_newcomer` — a node that joins is informed.
-/

namespace Fleet

/-! ### What has happened and was not undone -/

/-- Something has started in a list, given what came before it, and nothing later has ended it. -/
def Since {α : Type} (starts : List α → α → Prop) (ends : α → Prop) (l : List α) : Prop :=
  ∃ before x after, l = before ++ x :: after ∧ starts before x ∧ ∀ y ∈ after, ¬ ends y

theorem since_concat {α : Type} {starts : List α → α → Prop} {ends : α → Prop} {l : List α}
    {x : α} : Since starts ends (l ++ [x]) ↔ starts l x ∨ Since starts ends l ∧ ¬ ends x := by
  constructor
  · rintro ⟨before, y, after, heq, hstarts, hafter⟩
    rcases List.eq_nil_or_concat after with rfl | ⟨rest, z, rfl⟩
    · obtain ⟨rfl, hx⟩ := List.append_inj' heq rfl
      cases hx
      exact .inl hstarts
    · rw [List.concat_eq_append, ← List.cons_append, ← List.append_assoc] at heq
      obtain ⟨rfl, hx⟩ := List.append_inj' heq rfl
      cases hx
      refine .inr ⟨⟨before, y, rest, rfl, hstarts, fun w hw => hafter w ?_⟩, hafter _ ?_⟩ <;>
        simp [*]
  · rintro (hstarts | ⟨⟨before, y, after, rfl, hstarts, hafter⟩, hends⟩)
    · exact ⟨l, x, [], rfl, hstarts, by simp⟩
    · refine ⟨before, y, after ++ [x], by simp, hstarts, fun w hw => ?_⟩
      rcases List.mem_append.1 hw with hw | hw
      · exact hafter w hw
      · exact List.mem_singleton.1 hw ▸ hends

theorem not_since_nil {α : Type} {starts : List α → α → Prop} {ends : α → Prop} :
    ¬ Since starts ends [] := by
  rintro ⟨before, x, after, heq, -⟩
  simp at heq

namespace Network

/-- An operation on a network. -/
inductive Op where
  | join (i : Identity)
  | leave (id : String)
  | cut (a b : String)
  | heal (a b : String)

/-- What an operation does to a network.  A node joins under an id that is not in use; it is told of
the others, and they of it, in any order. -/
inductive Change (n : Network) : Op → Network → Prop
  | join (i : Identity) (order : List Endpoint) (hnew : n.endpoints.get? i.id = none)
      (horder : order.Perm n.endpoints.values) :
      Change n (.join i) (introduce i n.next order (n.welcome i))
  | leave (id : String) : Change n (.leave id) (n.leave id)
  | cut (a b : String) : Change n (.cut a b) (n.cut a b)
  | heal (a b : String) : Change n (.heal a b) (n.heal a b)

namespace Op

/-- An operation cuts the link between two nodes. -/
def Cuts (a b : String) : Op → Prop
  | .cut c d => link c d = link a b
  | .join _ | .leave _ | .heal .. => False

/-- An operation restores the link between two nodes. -/
def Heals (a b : String) : Op → Prop
  | .heal c d => link c d = link a b
  | .join _ | .leave _ | .cut .. => False

/-- One of two nodes joins. -/
def Joins (a b : String) : Op → Prop
  | .join i => i.id = a ∨ i.id = b
  | .leave _ | .cut .. | .heal .. => False

end Op

theorem change_join {n : Network} {i : Identity} (hnew : n.endpoints.get? i.id = none) :
    n.Change (.join i) (n.join i).2 := .join i n.endpoints.values hnew (.refl _)

/-- The link between two nodes has been cut and was not restored since, whether or not the nodes
were there. -/
def Cut (ops : List Op) (a b : String) : Prop := Since (fun _ => Op.Cuts a b) (Op.Heals a b) ops

/-- One of two nodes has joined while the link between them was cut, and the link was not restored
since. -/
def Overlooked (ops : List Op) (a b : String) : Prop :=
  Since (fun before op => op.Joins a b ∧ Cut before a b) (Op.Heals a b) ops

variable {n n' : Network} {ops : List Op} {op : Op} {a b c d p : String} {k : Nat}

theorem link_eq_link (h : link c d = link a b) : c = a ∧ d = b ∨ c = b ∧ d = a := by
  unfold link at h
  split at h <;> split at h <;> simp_all

/-- A link that is overlooked is cut. -/
theorem Overlooked.cut (h : Overlooked ops a b) : Cut ops a b := by
  induction ops using List.reverseRecOn with
  | nil => exact absurd h not_since_nil
  | append_singleton ops op ih =>
    rcases since_concat.1 h with ⟨hjoins, hcut⟩ | ⟨hsince, hheals⟩
    · refine since_concat.2 (.inr ⟨hcut, fun hheals => ?_⟩)
      cases op with
      | join => exact hheals
      | leave | cut | heal => exact hjoins
    · exact since_concat.2 (.inr ⟨ih hsince, hheals⟩)

/-! ### Operations and those who are told of them -/

/-- A network after an operation, before anybody is told of it. -/
def Op.apply (n : Network) : Op → Network
  | .join i => n.welcome i
  | .leave id => { n with endpoints := n.endpoints.erase id }
  | .cut a b => { n with severed := n.severed.insert (link a b) }
  | .heal a b => { n with severed := n.severed.filter (· ≠ link a b) }

/-- After an operation some nodes are told of it. -/
theorem Change.exists_postAll (h : n.Change op n') : ∃ l, n' = (op.apply n).postAll l := by
  cases h with
  | join i order => exact ⟨_, introduce_eq ..⟩
  | leave id =>
    cases hin : n.endpoints.contains id with
    | true => exact ⟨_, leave_eq hin⟩
    | false =>
      refine ⟨[], ?_⟩
      rw [Network.leave, if_neg (by simp [hin]), Op.apply,
        Table.erase_of_get?_eq_none (Table.contains_eq_false_iff.1 hin)]
      rfl
  | cut c d =>
    by_cases hin : link c d ∈ n.severed
    · refine ⟨[], ?_⟩
      rw [Network.cut, if_pos hin, Op.apply, List.insert_of_mem hin]
      rfl
    · rw [Op.apply, List.insert_of_not_mem hin]
      exact ⟨_, cut_eq hin⟩
  | heal c d =>
    by_cases hin : link c d ∈ n.severed
    · exact ⟨_, heal_eq hin⟩
    · refine ⟨[], ?_⟩
      have hall : n.severed.filter (· ≠ link c d) = n.severed :=
        List.filter_eq_self.2 fun l hl => decide_eq_true fun heq => hin (heq ▸ hl)
      rw [Network.heal, if_neg hin, Op.apply, hall]
      rfl

/-! ### The state of a network after some operations -/

/-- A network is as some operations have left it: its nodes are known under their ids and each
receives in a mailbox of its own, and the links that are cut are those of the operations. -/
structure Recalls (ops : List Op) (n : Network) : Prop where
  tidy : n.Tidy
  keyed : ∀ id p, n.endpoints.get? id = some p → p.identity.id = id
  apart : ∀ a b k, n.box? a = some k → n.box? b = some k → a = b
  receiving : ∀ a k, n.box? a = some k → n.receives k = true
  severed : ∀ a b, link a b ∈ n.severed ↔ Cut ops a b

/-- A peer is there and the link to it is not cut, or overlooked. -/
def Apparent (ops : List Op) (n : Network) (a p : String) : Prop :=
  n.endpoints.contains p = true ∧ (link a p ∉ n.severed ∨ Overlooked ops a p)

/-- The events that wait for a node say of each peer, in addition to what is held of it, whether it
is apparent. -/
def Informs (ops : List Op) (n : Network) (a : String) (k : Nat) (held : String → Bool) : Prop :=
  ∀ p, p ≠ a → (n.view k (held p) p = true ↔ n.Apparent ops a p)

theorem recalls_empty : empty.Recalls [] where
  tidy := tidy_empty
  keyed _ _ h := nomatch h
  apart _ _ _ h := nomatch h
  receiving _ _ h := nomatch h
  severed _ _ := iff_of_false List.not_mem_nil not_since_nil

namespace Recalls

/-- What changes neither the nodes nor the links is no operation. -/
theorem same (h : n.Recalls ops) (hendpoints : n'.endpoints = n.endpoints)
    (hsevered : n'.severed = n.severed) (htidy : n'.Tidy)
    (hreceives : ∀ a k, n.box? a = some k → n'.receives k = true) : n'.Recalls ops := by
  have hbox : n'.box? = n.box? := by
    funext id
    rw [box?, hendpoints, box?]
  exact ⟨htidy, hendpoints ▸ h.keyed, hbox ▸ h.apart, hbox ▸ hreceives, hsevered ▸ h.severed⟩

theorem postAll (h : n.Recalls ops) (l : List (Nat × TransportEvent)) :
    (n.postAll l).Recalls ops := by
  obtain ⟨hendpoints, hsevered, -, hreceives, htidy⟩ := n.postAll_spec l
  exact h.same hendpoints hsevered (htidy h.tidy) fun a k hk =>
    (hreceives k).trans (h.receiving a k hk)

theorem lt_next (h : n.Recalls ops) (hk : n.box? a = some k) : k < n.next := by
  obtain ⟨p, hp, rfl⟩ := Option.map_eq_some_iff.1 hk
  exact h.tidy.endpoints a p hp

/-- An operation that concerns no link leaves those that are cut. -/
theorem severed_concat (h : n.Recalls ops) (hcuts : ∀ a b, ¬ op.Cuts a b)
    (hheals : ∀ a b, ¬ op.Heals a b) (a b : String) :
    link a b ∈ n.severed ↔ Cut (ops ++ [op]) a b := by
  rw [h.severed, Cut, Cut, since_concat, or_iff_right (hcuts a b), and_iff_left (hheals a b)]

theorem welcome (h : n.Recalls ops) (i : Identity) :
    (n.welcome i).Recalls (ops ++ [.join i]) := by
  have hbox : ∀ a k, (n.welcome i).box? a = some k →
      a = i.id ∧ k = n.next ∨ a ≠ i.id ∧ n.box? a = some k := by
    intro a k hk
    rw [box?, Network.welcome, Table.get?_insert] at hk
    split at hk
    · next heq => exact .inl ⟨heq, (Option.some.inj hk).symm⟩
    · next hne => exact .inr ⟨hne, hk⟩
  refine ⟨h.tidy.welcome i, fun id p hp => ?_, fun a b k ha hb => ?_, fun a k hk => ?_,
    h.severed_concat (fun _ _ => not_false) fun _ _ => not_false⟩
  · rw [Network.welcome, Table.get?_insert] at hp
    split at hp
    · next heq =>
      cases hp
      exact heq.symm
    · exact h.keyed id p hp
  · rcases hbox a k ha with ⟨rfl, hk⟩ | ⟨-, ha⟩ <;> rcases hbox b k hb with ⟨rfl, hk'⟩ | ⟨-, hb⟩
    · rfl
    · have := h.lt_next hb
      omega
    · have := h.lt_next ha
      omega
    · exact h.apart a b k ha hb
  · rw [receives, Network.welcome, Table.get?_insert]
    split
    · rfl
    · next hne =>
      rcases hbox a k hk with ⟨-, heq⟩ | ⟨-, hold⟩
      · exact absurd heq hne
      · exact h.receiving a k hold

theorem erase (h : n.Recalls ops) (id : String) :
    ({ n with endpoints := n.endpoints.erase id } : Network).Recalls (ops ++ [.leave id]) := by
  have hget : ∀ a p, (n.endpoints.erase id).get? a = some p → n.endpoints.get? a = some p := by
    intro a p hp
    rw [Table.get?_erase] at hp
    split at hp
    · cases hp
    · exact hp
  have hbox : ∀ a k, ({ n with endpoints := n.endpoints.erase id } : Network).box? a = some k →
      n.box? a = some k := by
    intro a k hk
    obtain ⟨p, hp, heq⟩ := Option.map_eq_some_iff.1 hk
    exact Option.map_eq_some_iff.2 ⟨p, hget a p hp, heq⟩
  exact ⟨⟨h.tidy.mailboxes, fun a p hp => h.tidy.endpoints a p (hget a p hp)⟩,
    fun a p hp => h.keyed a p (hget a p hp),
    fun a b k ha hb => h.apart a b k (hbox a k ha) (hbox b k hb),
    fun a k hk => h.receiving a k (hbox a k hk),
    h.severed_concat (fun _ _ => not_false) fun _ _ => not_false⟩

/-- The links that are cut change as an operation says. -/
theorem relink (h : n.Recalls ops) {severed : List (String × String)}
    (hsevered : ∀ a b, link a b ∈ severed ↔ op.Cuts a b ∨ link a b ∈ n.severed ∧ ¬ op.Heals a b) :
    ({ n with severed } : Network).Recalls (ops ++ [op]) :=
  ⟨⟨h.tidy.mailboxes, h.tidy.endpoints⟩, h.keyed, h.apart, h.receiving, fun a b => by
    rw [hsevered, h.severed, Cut, Cut, since_concat]⟩

theorem apply (h : n.Recalls ops) (op : Op) : (op.apply n).Recalls (ops ++ [op]) := by
  cases op with
  | join i => exact h.welcome i
  | leave id => exact h.erase id
  | cut c d =>
    refine h.relink fun a b => ?_
    have hheals : ¬ (Op.cut c d).Heals a b := not_false
    rw [and_iff_left hheals, List.mem_insert_iff, eq_comm]
    rfl
  | heal c d =>
    refine h.relink fun a b => ?_
    have hcuts : ¬ (Op.heal c d).Cuts a b := not_false
    rw [or_iff_right hcuts, List.mem_filter, decide_eq_true_eq, ne_comm]
    rfl

/-- Every operation leaves a network as it should be. -/
theorem change (h : n.Recalls ops) (hchange : n.Change op n') : n'.Recalls (ops ++ [op]) := by
  obtain ⟨l, rfl⟩ := hchange.exists_postAll
  exact (h.apply op).postAll l

end Recalls

/-! ### What the operations tell the nodes -/

theorem apparent_postAll (n : Network) (l : List (Nat × TransportEvent)) :
    (n.postAll l).Apparent ops a p ↔ n.Apparent ops a p := by
  rw [Apparent, Apparent, (n.postAll_spec l).1, (n.postAll_spec l).2.1]

/-- Nothing becomes or ceases to be overlooked but for a node that joins and a link that is
restored. -/
theorem overlooked_concat (hjoins : ¬ op.Joins a p) (hheals : ¬ op.Heals a p) :
    Overlooked (ops ++ [op]) a p ↔ Overlooked ops a p := by
  rw [Overlooked, Overlooked, since_concat, or_iff_right fun hand => hjoins hand.1,
    and_iff_left hheals]

/-- A node that joins appears to the others, whether or not the links to it are cut. -/
theorem Recalls.apparent_welcome (h : n.Recalls ops) (i : Identity) (hp : i.id = a ∨ i.id = p) :
    (n.welcome i).Apparent (ops ++ [.join i]) a p ↔ (n.welcome i).endpoints.contains p = true := by
  refine and_iff_left ?_
  by_cases hin : link a p ∈ n.severed
  · exact .inr (since_concat.2 (.inl ⟨hp, (h.severed a p).1 hin⟩))
  · exact .inl hin

/-- What a node is told of a link that is cut: it is an end of the link, and the other end is
gone. -/
theorem Recalls.of_mem_notices (h : n.Recalls ops) (ha : n.box? a = some k) {e : TransportEvent}
    (he : (k, e) ∈ n.notice c (.disconnected d) ++ n.notice d (.disconnected c)) :
    c = a ∧ e = .disconnected d ∨ d = a ∧ e = .disconnected c := by
  refine (List.mem_append.1 he).imp (fun he => ?_) fun he => ?_ <;>
    · obtain ⟨hbox, he⟩ := mem_notice.1 he
      exact ⟨h.apart _ _ k hbox ha, he⟩

theorem mem_notices (ha : n.box? a = some k) (hlink : link c d = link a p) :
    (k, .disconnected p) ∈ n.notice c (.disconnected d) ++ n.notice d (.disconnected c) := by
  rcases link_eq_link hlink with ⟨rfl, rfl⟩ | ⟨rfl, rfl⟩
  · exact List.mem_append_left _ (mem_notice.2 ⟨ha, rfl⟩)
  · exact List.mem_append_right _ (mem_notice.2 ⟨ha, rfl⟩)

/-- What a node is told of a link that is restored: it is an end of the link, and the other end is
there. -/
theorem Recalls.of_mem_announcements (h : n.Recalls ops) (ha : n.box? a = some k)
    {e : TransportEvent} (he : (k, e) ∈ n.announcement c d ++ n.announcement d c) :
    ∃ other i, link c d = link a other ∧ n.identity? other = some i ∧ i.id = other ∧
      e = .connected i := by
  have hend : ∀ receiver peer, (k, e) ∈ n.announcement receiver peer →
      receiver = a ∧ ∃ i, n.identity? peer = some i ∧ i.id = peer ∧ e = .connected i := by
    intro receiver peer he
    obtain ⟨i, hi, hbox, rfl⟩ := mem_announcement.1 he
    obtain ⟨q, hq, rfl⟩ := Option.map_eq_some_iff.1 hi
    exact ⟨h.apart _ _ k hbox ha, q.identity, hi, h.keyed peer q hq, rfl⟩
  rcases List.mem_append.1 he with he | he
  · obtain ⟨rfl, i, hi, hid, rfl⟩ := hend c d he
    exact ⟨d, i, rfl, hi, hid, rfl⟩
  · obtain ⟨rfl, i, hi, hid, rfl⟩ := hend d c he
    exact ⟨c, i, link_comm c d, hi, hid, rfl⟩

theorem mem_announcements (ha : n.box? a = some k) {i : Identity} (hi : n.identity? p = some i)
    (hlink : link c d = link a p) :
    (k, .connected i) ∈ n.announcement c d ++ n.announcement d c := by
  rcases link_eq_link hlink with ⟨rfl, rfl⟩ | ⟨rfl, rfl⟩
  · exact List.mem_append_left _ (mem_announcement.2 ⟨i, hi, ha, rfl⟩)
  · exact List.mem_append_right _ (mem_announcement.2 ⟨i, hi, ha, rfl⟩)

variable {held : String → Bool}

/-- The node that joins is informed: it knows nobody, and is told of all that are there. -/
theorem Recalls.informs_newcomer (h : n.Recalls ops) (i : Identity) {order : List Endpoint}
    (horder : order.Perm n.endpoints.values) (hheld : ∀ p, p ≠ i.id → held p = false) :
    (introduce i n.next order (n.welcome i)).Informs (ops ++ [.join i]) i.id n.next held := by
  intro p hp
  have hbox : (n.welcome i).box? i.id = some n.next := by
    rw [box?, Network.welcome, Table.get?_insert, if_pos rfl]
    rfl
  have hreceives := (h.welcome i).receiving i.id n.next hbox
  have hcontains : (n.welcome i).endpoints.contains p = true ↔ n.endpoints.contains p = true := by
    rw [Table.contains, Network.welcome, Table.get?_insert, if_neg hp, Table.contains]
  rw [introduce_eq, apparent_postAll, h.apparent_welcome i (.inl rfl), hcontains,
    Table.contains_iff]
  have hmem : ∀ e, (n.next, e) ∈ introductions i n.next order →
      e = .connected i ∨ ∃ id q, n.endpoints.get? id = some q ∧ e = .connected q.identity := by
    intro e he
    obtain ⟨q, hq, ⟨-, he⟩ | ⟨-, he⟩⟩ := mem_introductions.1 he
    · exact .inl he
    · obtain ⟨id, hid⟩ := Table.mem_values_iff.1 (horder.mem_iff.1 hq)
      exact .inr ⟨id, q, hid, he⟩
  by_cases hthere : ∃ q, n.endpoints.get? p = some q
  · obtain ⟨q, hq⟩ := hthere
    have hin : (n.next, .connected q.identity) ∈ introductions i n.next order :=
      mem_introductions.2 ⟨q, horder.mem_iff.2 (Table.mem_values_iff.2 ⟨p, hq⟩), .inr ⟨rfl, rfl⟩⟩
    refine iff_of_true (view_postAll_of_mem hreceives hin (if_pos (h.keyed p q hq)) ?_ _) ⟨q, hq⟩
    intro e he
    rcases hmem e he with rfl | ⟨id, q', -, rfl⟩ <;> exact signal?_connected _ _
  · refine iff_of_false ?_ hthere
    rw [view_postAll_of_none hreceives fun e he => ?_]
    · have hempty : (n.welcome i).inbox n.next = [] := by
        rw [inbox, Network.welcome, Table.get?_insert, if_pos rfl]
        rfl
      rw [view, hempty, hheld p hp]
      exact Bool.false_ne_true
    · rcases hmem e he with rfl | ⟨id, q, hq, rfl⟩
      · exact if_neg (Ne.symm hp)
      · exact if_neg fun heq : q.identity.id = p => hthere ⟨q, by rwa [← heq, h.keyed id q hq]⟩

namespace Informs

variable (h : n.Recalls ops) (ha : n.box? a = some k) (hinforms : n.Informs ops a k held)

include h ha hinforms

/-- The others are told of a node that joins. -/
theorem join (i : Identity) {order : List Endpoint} (hnew : n.endpoints.get? i.id = none)
    (horder : order.Perm n.endpoints.values) :
    (introduce i n.next order (n.welcome i)).Informs (ops ++ [.join i]) a k held := by
  intro p hp
  have hia : i.id ≠ a := by
    rintro rfl
    rw [box?, hnew] at ha
    cases ha
  have hk : k ≠ n.next := (h.lt_next ha).ne
  have hold : (n.welcome i).mailboxes.get? k = n.mailboxes.get? k := by
    rw [welcome, Table.get?_insert, if_neg hk]
  have hreceives : (n.welcome i).receives k = true := by
    rw [receives, hold]
    exact h.receiving a k ha
  have hmem : ∀ e, (k, e) ∈ introductions i n.next order → e = .connected i := by
    intro e he
    obtain ⟨q, -, ⟨-, he⟩ | ⟨heq, -⟩⟩ := mem_introductions.1 he
    · exact he
    · exact absurd heq hk
  rw [introduce_eq, apparent_postAll]
  by_cases hip : i.id = p
  · obtain ⟨q, hq, rfl⟩ := Option.map_eq_some_iff.1 ha
    have hin : (q.mailbox, .connected i) ∈ introductions i n.next order :=
      mem_introductions.2 ⟨q, horder.mem_iff.2 (Table.mem_values_iff.2 ⟨a, hq⟩), .inl ⟨rfl, rfl⟩⟩
    rw [h.apparent_welcome i (.inr hip)]
    refine iff_of_true (view_postAll_of_mem hreceives hin (if_pos hip) (fun e he => ?_) _) ?_
    · exact hmem e he ▸ signal?_connected i p
    · rw [Table.contains, welcome, Table.get?_insert, if_pos hip.symm]
      rfl
  · have hsame : (n.welcome i).view k (held p) p = n.view k (held p) p := by
      rw [view, inbox, hold, view, inbox]
    have hjoins : ¬ (Op.join i).Joins a p := not_or.2 ⟨hia, hip⟩
    rw [view_postAll_of_none hreceives fun e he => by rw [hmem e he]; exact if_neg hip, hsame,
      hinforms p hp, Apparent, Apparent, overlooked_concat hjoins not_false,
      Table.contains, Table.contains, welcome, Table.get?_insert, if_neg (Ne.symm hip)]

/-- The others are told of a node that leaves. -/
theorem leave (id : String) (hstays : id ≠ a) :
    (n.leave id).Informs (ops ++ [.leave id]) a k held := by
  intro p hp
  have hover : Overlooked (ops ++ [.leave id]) a p ↔ Overlooked ops a p :=
    overlooked_concat not_false not_false
  cases hin : n.endpoints.contains id with
  | false =>
    rw [Network.leave, if_neg (by simp [hin]), Apparent, hover]
    exact hinforms p hp
  | true =>
    have hget : (n.endpoints.erase id).get? a = n.endpoints.get? a := by
      rw [Table.get?_erase, if_neg (Ne.symm hstays)]
    have hreceives := h.receiving a k ha
    have hmem : ∀ e, (k, e) ∈ (n.endpoints.erase id).values.map
        (fun p => (p.mailbox, TransportEvent.disconnected id)) → e = .disconnected id := by
      intro e he
      obtain ⟨q, -, heq⟩ := List.mem_map.1 he
      exact (congrArg Prod.snd heq).symm
    rw [leave_eq hin, apparent_postAll, Apparent, hover, Table.contains, Table.get?_erase]
    by_cases hip : id = p
    · obtain ⟨q, hq, rfl⟩ := Option.map_eq_some_iff.1 ha
      have htold : (q.mailbox, .disconnected id) ∈
          (n.endpoints.erase id).values.map fun p => (p.mailbox, TransportEvent.disconnected id) :=
        List.mem_map.2 ⟨q, Table.mem_values_iff.2 ⟨a, hget.trans hq⟩, rfl⟩
      rw [if_pos hip.symm]
      refine iff_of_false ?_ fun hand => Bool.false_ne_true hand.1
      rw [view_postAll_of_mem (n := { n with endpoints := n.endpoints.erase id }) hreceives htold
        (if_pos hip) fun e he => hmem e he ▸ signal?_disconnected id p]
      exact Bool.false_ne_true
    · rw [if_neg (Ne.symm hip), view_postAll_of_none
        (n := { n with endpoints := n.endpoints.erase id }) hreceives
        fun e he => by rw [hmem e he]; exact if_neg hip]
      exact hinforms p hp

/-- Both ends of a link are told that it is cut, unless it was. -/
theorem cut (c d : String) : (n.cut c d).Informs (ops ++ [.cut c d]) a k held := by
  intro p hp
  have hover : Overlooked (ops ++ [.cut c d]) a p ↔ Overlooked ops a p :=
    overlooked_concat not_false not_false
  by_cases hin : link c d ∈ n.severed
  · rw [Network.cut, if_pos hin, Apparent, hover]
    exact hinforms p hp
  · have hreceives := h.receiving a k ha
    rw [cut_eq hin, apparent_postAll, Apparent, hover]
    by_cases hlink : link c d = link a p
    · have hnot : ¬ Overlooked ops a p := fun hover =>
        hin (hlink ▸ (h.severed a p).2 hover.cut)
      have htold := mem_notices ha hlink
      refine iff_of_false ?_ fun hand => ?_
      · rw [view_postAll_of_mem (n := { n with severed := link c d :: n.severed }) hreceives htold
          (if_pos rfl) fun e he => ?_]
        · exact Bool.false_ne_true
        · rcases h.of_mem_notices ha he with ⟨-, rfl⟩ | ⟨-, rfl⟩ <;>
            exact signal?_disconnected _ _
      · rcases hand.2 with hlinked | hover
        · exact hlinked (hlink ▸ List.mem_cons_self)
        · exact hnot hover
    · rw [view_postAll_of_none (n := { n with severed := link c d :: n.severed }) hreceives
        fun e he => ?_, List.mem_cons, not_or, and_iff_right (Ne.symm hlink)]
      · exact hinforms p hp
      · rcases h.of_mem_notices ha he with ⟨rfl, rfl⟩ | ⟨rfl, rfl⟩
        · exact if_neg fun heq => hlink (by rw [heq])
        · exact if_neg fun heq => hlink (by rw [heq, link_comm])

/-- Both ends of a link are told that it is there again, unless it was. -/
theorem heal (c d : String) : (n.heal c d).Informs (ops ++ [.heal c d]) a k held := by
  intro p hp
  have hjoins : ¬ (Op.heal c d).Joins a p := not_false
  by_cases hin : link c d ∈ n.severed
  · have hreceives := h.receiving a k ha
    rw [heal_eq hin, apparent_postAll]
    by_cases hlink : link c d = link a p
    · have hlinked : link a p ∉ n.severed.filter (· ≠ link c d) := by simp [hlink]
      rw [Apparent, and_iff_left (.inl hlinked)]
      cases hidentity : n.identity? p with
      | some i =>
        obtain ⟨q, hq, rfl⟩ := Option.map_eq_some_iff.1 hidentity
        have htold := mem_announcements ha hidentity hlink
        refine iff_of_true (view_postAll_of_mem
          (n := { n with severed := n.severed.filter (· ≠ link c d) }) hreceives htold
          (if_pos (h.keyed p q hq)) (fun e he => ?_) _) (Table.contains_iff.2 ⟨q, hq⟩)
        obtain ⟨other, i, -, -, -, rfl⟩ := h.of_mem_announcements ha he
        exact signal?_connected i p
      | none =>
        have hout : ¬ n.endpoints.contains p = true := by
          rw [Table.contains_iff]
          rintro ⟨q, hq⟩
          rw [identity?, hq] at hidentity
          cases hidentity
        rw [view_postAll_of_none (n := { n with severed := n.severed.filter (· ≠ link c d) })
          hreceives fun e he => ?_]
        · exact (hinforms p hp).trans (iff_of_false (fun hand => hout hand.1) hout)
        · obtain ⟨other, i, -, hi, hid, rfl⟩ := h.of_mem_announcements ha he
          refine if_neg fun heq : i.id = p => ?_
          rw [hid.symm.trans heq, hidentity] at hi
          cases hi
    · have hheals : ¬ (Op.heal c d).Heals a p := hlink
      have hsame : link a p ∈ n.severed.filter (· ≠ link c d) ↔ link a p ∈ n.severed := by
        simp [Ne.symm hlink]
      rw [Apparent, overlooked_concat hjoins hheals, hsame, view_postAll_of_none
        (n := { n with severed := n.severed.filter (· ≠ link c d) }) hreceives fun e he => ?_]
      · exact hinforms p hp
      · obtain ⟨other, i, hother, -, hid, rfl⟩ := h.of_mem_announcements ha he
        exact if_neg fun heq : i.id = p => hlink (by rw [hother, ← hid, heq])
  · rw [Network.heal, if_neg hin]
    refine (hinforms p hp).trans (and_congr_right fun _ => ?_)
    by_cases hlink : link c d = link a p
    · exact iff_of_true (.inl (hlink ▸ hin)) (.inl (hlink ▸ hin))
    · have hheals : ¬ (Op.heal c d).Heals a p := hlink
      rw [overlooked_concat hjoins hheals]

end Informs

/-- A node that is there after an operation was there before it, or is the one that joins. -/
theorem Change.box? (h : n.Change op n') (ha : n'.box? a = some k) :
    (n.box? a = some k ∧ ∀ id, op = .leave id → id ≠ a) ∨
      ∃ i, op = .join i ∧ a = i.id ∧ k = n.next := by
  obtain ⟨l, rfl⟩ := h.exists_postAll
  rw [box?_postAll] at ha
  cases op with
  | join i =>
    rw [Network.box?, Op.apply, welcome, Table.get?_insert] at ha
    split at ha
    · next heq => exact .inr ⟨i, rfl, heq, (Option.some.inj ha).symm⟩
    · refine .inl ⟨ha, fun id hleave => ?_⟩
      cases hleave
  | leave id =>
    rw [Network.box?, Op.apply, Table.get?_erase] at ha
    split at ha
    · cases ha
    · next hne => exact .inl ⟨ha, fun _ heq => Op.leave.inj heq ▸ Ne.symm hne⟩
  | cut | heal =>
    refine .inl ⟨ha, fun id hleave => ?_⟩
    cases hleave

/-- What waits in another network may differ if it comes to the same. -/
theorem Informs.same {held' : String → Bool} (hinforms : n.Informs ops a k held)
    (hendpoints : n'.endpoints = n.endpoints) (hsevered : n'.severed = n.severed)
    (hview : ∀ p, p ≠ a → n'.view k (held' p) p = n.view k (held p) p) :
    n'.Informs ops a k held' := by
  intro p hp
  rw [hview p hp, hinforms p hp, Apparent, Apparent, hendpoints, hsevered]

/-- Every operation tells a node that is there what it has to know. -/
theorem Informs.change (h : n.Recalls ops) (hchange : n.Change op n') (ha : n.box? a = some k)
    (hstays : ∀ id, op = .leave id → id ≠ a) (hinforms : n.Informs ops a k held) :
    n'.Informs (ops ++ [op]) a k held := by
  cases hchange with
  | join i order hnew horder => exact join h ha hinforms i hnew horder
  | leave id => exact leave h ha hinforms id (hstays id rfl)
  | cut c d => exact cut h ha hinforms c d
  | heal c d => exact heal h ha hinforms c d

/-- A node is connected to those that its links reach. -/
theorem Recalls.mem_connections (h : n.Recalls ops) :
    p ∈ (n.connections a).map (·.id) ↔ n.linked a p = true := by
  simp only [connections, List.mem_map, List.mem_filter]
  constructor
  · rintro ⟨_, ⟨-, hlinked⟩, rfl⟩
    exact hlinked
  · intro hlinked
    have hthere : n.endpoints.contains p = true := by
      simp only [linked, Bool.and_eq_true] at hlinked
      exact hlinked.1.2
    obtain ⟨q, hq⟩ := Table.contains_iff.1 hthere
    have hid := h.keyed p q hq
    exact ⟨q.identity, ⟨⟨q, Table.mem_values_iff.2 ⟨p, hq⟩, rfl⟩, hid.symm ▸ hlinked⟩, hid⟩

theorem Change.next_le (h : n.Change op n') : n.next ≤ n'.next := by
  obtain ⟨l, rfl⟩ := h.exists_postAll
  rw [(postAll_spec _ l).2.2.1]
  cases op with
  | join => exact Nat.le_succ _
  | leave | cut | heal => exact le_refl _

end Network

end Fleet

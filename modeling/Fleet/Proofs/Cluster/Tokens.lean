import Fleet.Proofs.Cluster.Measure
import Fleet.Proofs.Cluster.Moves
import Mathlib.Data.Multiset.AddSub
import Mathlib.Data.Multiset.MapFold

/-!
# Queries on their way

At any time a query or its response is in at most one place: about to be written, in transit,
waiting at the node that it is for, worked on there, or on its way back. Its token says where, and
the place determines what has been noted about it so far. Every step moves at most one token, and
the notes that it adds are the ones that belong to the new place.
-/

namespace Fleet

/-- Where a query or its response is. -/
inductive Token where
  | writing (target : String) (m : Message)
  | travelling (box : Nat) (m : Message)
  | waiting (node : String) (m : Message)
  | handling (node : String) (m : Message) (response : Option Bytes)
  | returning (r : Message)

/-- The id under which a query is known. -/
def Message.queryId (m : Message) : Uuid := m.correlation.getD .nil

/-- The token of a query that has not been written. -/
def Query.token : Query → Multiset (Uuid × Token)
  | .writing id target m _ => {(id, .writing target m)}
  | _ => 0

/-- The token of the query that a creation waits for. -/
def Creation.token (c : Creation) : Multiset (Uuid × Token) := c.query?.elim 0 Query.token

/-- The token of a query that listeners work on. -/
def Event.token (node : String) (e : Event) : Multiset (Uuid × Token) :=
  if e.message.query then {(e.message.queryId, .handling node e.message e.response)} else 0

/-- All tokens of the work on a message. -/
def Dispatch.token (node : String) (d : Dispatch) : Multiset (Uuid × Token) :=
  d.event?.elim 0 (Event.token node) + d.creation?.elim 0 Creation.token

/-- The tokens of a cluster. -/
def tokens : Measure (Uuid × Token) where
  job
    | _, .query q => q.token
    | _, .creation c => c.token
    | _, .dispatch _ => 0
  parked node m := if m.query then {(m.queryId, .waiting node m)} else 0
  dispatch node d := d.token node
  reply
    | id, .answer m => {(id, .returning m)}
    | _, .gone => 0
  letter k m :=
    if m.query then {(m.queryId, .travelling k m)}
    else m.correlation.elim 0 fun id => {(id, .returning m)}

/-! ### Stories -/

/-- The query that a note tells the story of. -/
def Note.subject? : Note → Option Uuid
  | .asked _ _ id _ _ | .taken _ id | .set id _ => some id
  | _ => none

/-- What has been noted about a query on its way, the newest first. -/
def story (notes : List Note) (id : Uuid) : List Note :=
  notes.filter fun n => n.subject? = some id

@[simp] theorem story_nil (id : Uuid) : story [] id = [] := rfl

@[simp] theorem story_append (l l' : List Note) (id : Uuid) :
    story (l ++ l') id = story l id ++ story l' id := List.filter_append ..

theorem story_eq_nil {l : List Note} (h : ∀ n ∈ l, n.subject? = none) (id : Uuid) :
    story l id = [] := by
  refine List.filter_eq_nil_iff.2 fun n hn => ?_
  simp [h n hn]

/-- The story of a query that a node has taken up, with the answer that it has got. -/
def takenStory (c : Cause) (a : String) (id : Uuid) (b : String) (m : Message)
    (response : Option Bytes) : List Note :=
  (response.map (.set id)).toList ++ [.taken b id, .asked c a id b m]

/-- A message is the query with an id. -/
def Message.IsQuery (m : Message) (id : Uuid) : Prop := m.query = true ∧ m.correlation = some id

/-- The story of a query is the one that the place of its token requires. `boxes` says to which node
a mailbox belongs. -/
def Fits (boxes : Nat → String → Prop) (id : Uuid) : Token → List Note → Prop
  | .writing target m, s => m.IsQuery id ∧ ∃ c a, s = [.asked c a id target m]
  | .travelling k m, s =>
    m.IsQuery id ∧ ∃ c a b, s = [.asked c a id b m] ∧ ∀ b', boxes k b' → b' = b
  | .waiting b m, s => m.IsQuery id ∧ ∃ c a, s = [.asked c a id b m]
  | .handling b m response, s => m.IsQuery id ∧ ∃ c a, s = takenStory c a id b m response
  | .returning r, s => ∃ c a b m response, m.IsQuery id ∧ s = takenStory c a id b m response ∧
      r = m.responseFor b (response.getD [])

/-- What a step does to tokens and to what is noted. -/
inductive Shift (boxes : Nat → String → Prop) (T T' : Multiset (Uuid × Token))
    (new : List Note) (drawn drawn' : Nat) : Prop
  /-- No token moves, though some may be lost. -/
  | quiet (hle : T' ≤ T) (hnew : ∀ id, story new id = []) (hdrawn : drawn ≤ drawn')
  /-- One token moves, and the story of its query goes on. -/
  | advance {id : Uuid} {tok tok' : Token} {R : Multiset (Uuid × Token)}
      (hT : (id, tok) ::ₘ R ≤ T) (hT' : T' ≤ (id, tok') ::ₘ R)
      (hnew : ∀ other, other ≠ id → story new other = [])
      (hfit : ∀ s, Fits boxes id tok s → Fits boxes id tok' (story new id ++ s))
      (hdrawn : drawn ≤ drawn')
  /-- A new query comes into being. -/
  | draw {tok : Token} (hT' : T' ≤ (.fresh drawn, tok) ::ₘ T)
      (hnew : ∀ other, other ≠ .fresh drawn → story new other = [])
      (hfit : Fits boxes (.fresh drawn) tok (story new (.fresh drawn)))
      (hdrawn : drawn' = drawn + 1)
  /-- A token is where none can be. -/
  | never {id : Uuid} {tok : Token} (hT : (id, tok) ∈ T) (hfit : ∀ s, ¬ Fits boxes id tok s)

namespace Shift

variable {boxes : Nat → String → Prop} {T T' : Multiset (Uuid × Token)} {new : List Note}
  {drawn drawn' : Nat}

/-- What is not touched may stand beside. -/
theorem add_right (h : Shift boxes T T' new drawn drawn') (R : Multiset (Uuid × Token)) :
    Shift boxes (T + R) (T' + R) new drawn drawn' := by
  cases h with
  | quiet hle hnew hdrawn => exact .quiet (add_le_add_left hle R) hnew hdrawn
  | @advance id tok tok' S hT hT' hnew hfit hdrawn =>
    refine .advance (R := S + R) ?_ ?_ hnew hfit hdrawn
    · rw [← Multiset.cons_add]
      exact add_le_add_left hT R
    · rw [← Multiset.cons_add]
      exact add_le_add_left hT' R
  | draw hT' hnew hfit hdrawn =>
    refine .draw ?_ hnew hfit hdrawn
    rw [← Multiset.cons_add]
    exact add_le_add_left hT' R
  | never hT hfit => exact .never (Multiset.mem_add.2 (.inl hT)) hfit

theorem congr_left {S : Multiset (Uuid × Token)} (h : Shift boxes T T' new drawn drawn')
    (hS : S = T) : Shift boxes S T' new drawn drawn' := hS ▸ h

theorem mono_right {S' : Multiset (Uuid × Token)} (h : Shift boxes T T' new drawn drawn')
    (hS : S' ≤ T') : Shift boxes T S' new drawn drawn' := by
  cases h with
  | quiet hle hnew hdrawn => exact .quiet (hS.trans hle) hnew hdrawn
  | advance hT hT' hnew hfit hdrawn => exact .advance hT (hS.trans hT') hnew hfit hdrawn
  | draw hT' hnew hfit hdrawn => exact .draw (hS.trans hT') hnew hfit hdrawn
  | never hT hfit => exact .never hT hfit

end Shift

/-- The tokens and the notes of a history fit together. -/
structure Coherent (boxes : Nat → String → Prop) (T : Multiset (Uuid × Token))
    (notes : List Note) (drawn : Nat) : Prop where
  /-- Every query is in one place. -/
  once : (T.map Prod.fst).Nodup
  fits : ∀ id tok, (id, tok) ∈ T → Fits boxes id tok (story notes id)
  /-- What has a story has an id that was drawn. -/
  drawn : ∀ id, story notes id ≠ [] → ∃ k < drawn, id = .fresh k

theorem Fits.ne_nil {boxes : Nat → String → Prop} {id : Uuid} {tok : Token} {s : List Note}
    (h : Fits boxes id tok s) : s ≠ [] := by
  cases tok with
  | writing | waiting =>
    obtain ⟨-, c, a, rfl⟩ := h
    simp
  | travelling =>
    obtain ⟨-, c, a, b, rfl, -⟩ := h
    simp
  | handling =>
    obtain ⟨-, c, a, rfl⟩ := h
    simp [takenStory]
  | returning =>
    obtain ⟨c, a, b, m, response, -, rfl, -⟩ := h
    simp [takenStory]

/-- Different numbers of identifiers give different ones as long as there are enough of them. -/
theorem Uuid.fresh_injective {k n : Nat} (hk : k < 2 ^ 128) (hn : n < 2 ^ 128)
    (h : Uuid.fresh k = Uuid.fresh n) : k = n := by
  have hval := congrArg (fun u : Uuid => u.value.toNat) h
  simp only [Uuid.fresh, BitVec.toNat_ofNat] at hval
  omega

namespace Coherent

variable {boxes : Nat → String → Prop} {T T' : Multiset (Uuid × Token)} {notes new : List Note}
  {drawn drawn' : Nat}

theorem fresh_not_drawn (hdrawn : drawn < 2 ^ 128) {k : Nat} (hk : k < drawn) :
    Uuid.fresh drawn ≠ .fresh k := by
  intro h
  have := Uuid.fresh_injective hdrawn (by omega) h
  omega

/-- A new id has no story. -/
theorem story_fresh (h : Coherent boxes T notes drawn) (hdrawn : drawn < 2 ^ 128) :
    story notes (.fresh drawn) = [] := by
  by_contra hne
  obtain ⟨k, hk, heq⟩ := h.drawn _ hne
  exact fresh_not_drawn hdrawn hk heq

/-- The story of a query without a token is over. -/
theorem story_final (h : Coherent boxes T notes drawn)
    (hshift : Shift boxes T T' new drawn drawn') (hdrawn : drawn' ≤ 2 ^ 128) {id : Uuid}
    (hnone : ∀ tok, (id, tok) ∉ T) (hid : story notes id ≠ []) :
    story (new ++ notes) id = story notes id ∧ ∀ tok, (id, tok) ∉ T' := by
  cases hshift with
  | quiet hle hnew =>
    refine ⟨by simp [hnew], fun tok hmem => hnone tok (Multiset.mem_of_le hle hmem)⟩
  | @advance other tok tok' R hT hT' hnew =>
    have hne : id ≠ other := by
      rintro rfl
      exact hnone tok (Multiset.mem_of_le hT (Multiset.mem_cons_self _ _))
    refine ⟨by simp [hnew id hne], fun tok'' hmem => ?_⟩
    rcases Multiset.mem_cons.1 (Multiset.mem_of_le hT' hmem) with heq | hR
    · cases heq
      exact hne rfl
    · exact hnone tok'' (Multiset.mem_of_le hT (Multiset.mem_cons_of_mem hR))
  | draw hT' hnew hfit hdrawn' =>
    obtain ⟨k, hk, rfl⟩ := h.drawn id hid
    have hne : Uuid.fresh k ≠ .fresh drawn := (fresh_not_drawn (by omega) hk).symm
    refine ⟨by simp [hnew _ hne], fun tok'' hmem => ?_⟩
    rcases Multiset.mem_cons.1 (Multiset.mem_of_le hT' hmem) with heq | hT
    · exact hne (congrArg Prod.fst heq)
    · exact hnone tok'' hT
  | never hT hfit => exact absurd (h.fits _ _ hT) (hfit _)

/-- Tokens that are lost, and notes on no query. -/
theorem quiet (h : Coherent boxes T notes drawn) (hle : T' ≤ T)
    (hnew : ∀ id, story new id = []) (hdrawn : drawn ≤ drawn') :
    Coherent boxes T' (new ++ notes) drawn' := by
  refine ⟨Multiset.nodup_of_le (Multiset.map_le_map hle) h.once, fun id tok hmem => ?_,
    fun id hid => ?_⟩
  · rw [story_append, hnew, List.nil_append]
    exact h.fits id tok (Multiset.mem_of_le hle hmem)
  · rw [story_append, hnew, List.nil_append] at hid
    obtain ⟨k, hk, rfl⟩ := h.drawn id hid
    exact ⟨k, Nat.lt_of_lt_of_le hk hdrawn, rfl⟩

/-- A token that moves, with notes on its query. -/
theorem advance (h : Coherent boxes T notes drawn) {id : Uuid} {tok tok' : Token}
    {R : Multiset (Uuid × Token)} (hT : (id, tok) ::ₘ R ≤ T) (hT' : T' ≤ (id, tok') ::ₘ R)
    (hnew : ∀ other, other ≠ id → story new other = [])
    (hfit : ∀ s, Fits boxes id tok s → Fits boxes id tok' (story new id ++ s))
    (hdrawn : drawn ≤ drawn') : Coherent boxes T' (new ++ notes) drawn' := by
  have honce := Multiset.nodup_of_le (Multiset.map_le_map hT) h.once
  have hstory : Fits boxes id tok (story notes id) :=
    h.fits id tok (Multiset.mem_of_le hT (Multiset.mem_cons_self _ _))
  refine ⟨Multiset.nodup_of_le (Multiset.map_le_map hT') (by simpa using honce),
    fun other tok'' hother => ?_, fun other hother => ?_⟩
  · rw [story_append]
    rcases Multiset.mem_cons.1 (Multiset.mem_of_le hT' hother) with heq | hR
    · cases heq
      exact hfit _ hstory
    · have hne : other ≠ id := by
        rintro rfl
        rw [Multiset.map_cons, Multiset.nodup_cons] at honce
        exact honce.1 (Multiset.mem_map.2 ⟨_, hR, rfl⟩)
      rw [hnew other hne, List.nil_append]
      exact h.fits other tok'' (Multiset.mem_of_le hT (Multiset.mem_cons_of_mem hR))
  · have hold : story notes other ≠ [] := by
      by_cases hne : other = id
      · exact hne ▸ hstory.ne_nil
      · rwa [story_append, hnew other hne, List.nil_append] at hother
    obtain ⟨k, hk, rfl⟩ := h.drawn other hold
    exact ⟨k, Nat.lt_of_lt_of_le hk hdrawn, rfl⟩

/-- A token of a new query, with notes on it. -/
theorem draw (h : Coherent boxes T notes drawn) {tok : Token}
    (hT' : T' ≤ (.fresh drawn, tok) ::ₘ T)
    (hnew : ∀ other, other ≠ .fresh drawn → story new other = [])
    (hfit : Fits boxes (.fresh drawn) tok (story new (.fresh drawn))) (hlt : drawn < 2 ^ 128) :
    Coherent boxes T' (new ++ notes) (drawn + 1) := by
  have hstory := h.story_fresh hlt
  have hfresh : ∀ tok', (.fresh drawn, tok') ∉ T := by
    intro tok' hmem
    exact (h.fits _ _ hmem).ne_nil hstory
  refine ⟨Multiset.nodup_of_le (Multiset.map_le_map hT') ?_, fun other tok'' hother => ?_,
    fun other hother => ?_⟩
  · rw [Multiset.map_cons, Multiset.nodup_cons]
    refine ⟨fun hmem => ?_, h.once⟩
    obtain ⟨⟨id, tok'⟩, hT, heq⟩ := Multiset.mem_map.1 hmem
    dsimp only at heq
    exact hfresh tok' (heq ▸ hT)
  · rw [story_append]
    rcases Multiset.mem_cons.1 (Multiset.mem_of_le hT' hother) with heq | hT
    · cases heq
      rw [hstory, List.append_nil]
      exact hfit
    · have hne : other ≠ .fresh drawn := by
        rintro rfl
        exact hfresh _ hT
      rw [hnew other hne, List.nil_append]
      exact h.fits other tok'' hT
  · by_cases hne : other = .fresh drawn
    · exact ⟨drawn, Nat.lt_succ_self drawn, hne⟩
    · rw [story_append, hnew other hne, List.nil_append] at hother
      obtain ⟨k, hk, rfl⟩ := h.drawn other hother
      exact ⟨k, Nat.lt_succ_of_lt hk, rfl⟩

/-- Every step keeps tokens and notes together. -/
theorem shift (h : Coherent boxes T notes drawn) (hshift : Shift boxes T T' new drawn drawn')
    (hdrawn : drawn' ≤ 2 ^ 128) : Coherent boxes T' (new ++ notes) drawn' := by
  cases hshift with
  | quiet hT' hnew hle => exact h.quiet hT' hnew hle
  | advance hT hT' hnew hfit hle => exact h.advance hT hT' hnew hfit hle
  | draw hT' hnew hfit hnext =>
    subst hnext
    exact h.draw hT' hnew hfit hdrawn
  | never hT hfit => exact absurd (h.fits _ _ hT) (hfit _)

end Coherent

end Fleet

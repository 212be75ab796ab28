import Fleet.Proofs.Cluster.Effects
import Fleet.Proofs.Cluster.Shifts

/-!
# The tale of a cause

Every note belongs to one cause. What has been noted for a cause, the newest first, is its tale, and
a step of an activity adds to the tale of its own cause only. The notes that the step of a creation
adds are the same whether a caller waits for the creation or a listener.
-/

namespace Fleet

/-- The cause that a note belongs to. -/
def Note.cause : Note → Cause
  | .called n .. | .concluded n _ => .call n
  | .read c .. | .chose c .. | .asked c .. | .started c .. | .returned c .. => c
  | .taken _ id | .set id _ => .query id

/-- What has been noted for a cause. -/
def tale (notes : List Note) (c : Cause) : List Note := notes.filter fun n => n.cause = c

variable {notes new : List Note} {c : Cause} {x : Note}

@[simp] theorem tale_append : tale (new ++ notes) c = tale new c ++ tale notes c :=
  List.filter_append ..

theorem mem_tale_iff : x ∈ tale notes c ↔ x ∈ notes ∧ x.cause = c := by simp [tale]

/-- The tale of a cause that a step adds to. -/
theorem tale_append_of_cause (notes : List Note) (h : ∀ x ∈ new, x.cause = c) :
    tale (new ++ notes) c = new ++ tale notes c := by
  rw [tale_append, tale, List.filter_eq_self.2 fun x hx => by simp [h x hx]]

/-- The tale of a cause that a step does not touch. -/
theorem tale_append_of_ne (h : ∀ x ∈ new, x.cause ≠ c) : tale (new ++ notes) c = tale notes c := by
  rw [tale_append, tale, List.filter_eq_nil_iff.2 fun x hx => by simp [h x hx], List.nil_append]

/-! ### Whom notes belong to -/

theorem Query.cause_notes {a : String} {q q' : Query} (h : x ∈ q.notes c a q') : x.cause = c := by
  simp only [notes] at h
  split at h
  · rw [List.mem_singleton.1 h]
    rfl
  · obtain ⟨id, -, rfl⟩ : ∃ id, _ ∧ _ = x := by simpa using h
    rfl
  · cases h

theorem Event.cause_notes {e e' : Event} (h : x ∈ e.notes e') : x.cause = e.message.cause := by
  rw [notes] at h
  split at h
  · next hcause _ _ =>
    rw [List.mem_singleton.1 h, hcause]
    rfl
  · cases h

/-- Every note of a step belongs to the cause of the activity. -/
theorem Work.cause_notes {t : Task} {work work' : Work} {n n' : Node}
    (h : x ∈ work.notes (t.cause work) n n' work') : x.cause = t.cause work := by
  simp only [notes, List.mem_append] at h
  rcases h with (((h | h) | h) | h) | h
  · simp only [conclusion] at h
    split at h
    · next hcause =>
      simp only [Creation.notes] at h
      split at h
      · cases h
      · rw [List.mem_singleton.1 h, hcause]
        rfl
      · cases h
    · cases h
  · rw [answers] at h
    split at h
    · next e e' he he' =>
      rw [Event.cause_notes h]
      cases work with
      | dispatch d =>
        have hd : d.cause = e.message.cause := by
          have hevent : d.event? = some e := he
          simp [Dispatch.cause, hevent]
        cases t <;> exact hd.symm
      | query | creation => cases he
    · cases h
  · obtain ⟨s, -, rfl⟩ := List.mem_map.1 h
    rfl
  · rw [progress] at h
    split at h
    · exact Query.cause_notes h
    · cases h
  · rcases mem_sight h with ⟨head, rfl⟩ | ⟨chosen, rfl⟩ <;> rfl

/-! ### The notes of creations -/

/-- The notes of a step of a creation, but for the one on its end. -/
def Creation.news (c : Cause) (n n' : Node) (cr cr' : Creation) : List Note :=
  (n.ledger.additions n'.ledger).map (.started c n.id) ++
    cr.progress c n.id cr' ++ cr.sight c n

theorem Work.notes_call {k : Nat} {n n' : Node} {cr cr' : Creation} :
    (Work.creation cr).notes (.call k) n n' (.creation cr') =
      cr.notes k cr' ++ cr.news (.call k) n n' cr' := by
  simp only [notes, Creation.news, List.append_assoc]
  rfl

theorem Work.notes_placing {n n' : Node} {cr cr' : Creation} {ticket : Nat} {e : Event}
    {rest : List Handler} :
    (Work.dispatch (.placing ticket e cr rest)).notes c n n'
        (.dispatch (.placing ticket e cr' rest)) = cr.news c n n' cr' := by
  have hconclusion : (Work.dispatch (.placing ticket e cr rest)).conclusion c
      (.dispatch (.placing ticket e cr' rest)) = [] := by cases c <;> rfl
  have hanswers : (Work.dispatch (.placing ticket e cr rest)).answers
      (.dispatch (.placing ticket e cr' rest)) = [] := e.notes_self
  simp only [notes, Creation.news, hconclusion, hanswers, List.nil_append]
  rfl

/-- A step that works on listeners and not on a creation notes what it answers and starts. -/
theorem Work.notes_listening {n n' : Node} {d d' : Dispatch}
    (hd : d.creation? = none ∨ ∃ r, d.creation? = some (.done r)) :
    (Work.dispatch d).notes c n n' (.dispatch d') =
      Work.answers (.dispatch d) (.dispatch d') ++
        (n.ledger.additions n'.ledger).map (.started c n.id) := by
  have hconclusion : (Work.dispatch d).conclusion c (.dispatch d') = [] := by cases c <;> rfl
  have hquery : (Work.dispatch d).query? = none := by
    rcases hd with hd | ⟨r, hd⟩ <;> simp [query?, hd, Creation.query?]
  have hprogress : (Work.dispatch d).progress c n.id (.dispatch d') = [] := by
    simp [progress, hquery]
  have hsight : (Work.dispatch d).sight c n = [] := by
    rcases hd with hd | ⟨r, hd⟩ <;> simp [sight, creation?, hd, Creation.sight]
  simp [notes, hconclusion, hprogress, hsight]

namespace Ledger

theorem additions_of_services_eq {l l' : Ledger} (h : l'.services = l.services) :
    l.additions l' = [] := by
  have hnone : (l'.services.entries.filter fun e => e ∉ l.services.entries) = [] := by
    refine List.filter_eq_nil_iff.2 fun e he => ?_
    rw [h] at he
    simp [he]
  rw [additions, hnone]
  rfl

/-- A service that is entered under a new identifier is the only one that is added. -/
theorem additions_insert {l l' : Ledger} {s : Service} (hnew : l.services.get? s.id = none)
    (h : l'.services = l.services.insert s.id s) : l.additions l' = [s] := by
  have hentries : l'.services.entries = l.services.entries ++ [(s.id, s)] := by
    rw [h, Table.insert, dif_pos hnew]
  have hout : (s.id, s) ∉ l.services.entries := by
    intro hmem
    rw [Table.get?_eq_some_iff.2 hmem] at hnew
    cases hnew
  have hold : (l.services.entries.filter fun e => e ∉ l.services.entries) = [] :=
    List.filter_eq_nil_iff.2 fun e he => by simp [he]
  rw [additions, hentries, List.filter_append, hold]
  simp [hout]

end Ledger

end Fleet

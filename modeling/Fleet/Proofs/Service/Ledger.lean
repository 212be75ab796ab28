import Fleet.Service.Ledger

/-!
# What starting a service does to a ledger
-/

namespace Fleet.Ledger

/-- A service is the one that a specification asks for, started on a node at an instant. -/
structure Serves (spec : ServiceSpec) (node : String) (now : Instant) (s : Service) : Prop where
  task : s.task = spec.task
  memory : s.memory = spec.memory
  groups : s.groups = spec.groups
  name : ∀ name, spec.name = some name → s.name = name
  node : s.node = node
  created : s.created = now

theorem search_keeps (task : String) (rounds : Nat) (l : Ledger) :
    (nextName.search task rounds l).2.node = l.node ∧
      (nextName.search task rounds l).2.services = l.services := by
  induction rounds generalizing l with
  | zero => exact ⟨rfl, rfl⟩
  | succ rounds ih =>
    simp only [nextName.search]
    split
    · exact ih _
    · exact ⟨rfl, rfl⟩

theorem nameFor_keeps (l : Ledger) (spec : ServiceSpec) :
    (l.nameFor spec).2.node = l.node ∧ (l.nameFor spec).2.services = l.services := by
  rw [nameFor]
  split
  · exact ⟨rfl, rfl⟩
  · exact search_keeps spec.task _ l

theorem name_nameFor {l : Ledger} {spec : ServiceSpec} {name : String}
    (h : spec.name = some name) : (l.nameFor spec).1 = name := by
  rw [nameFor, h]

/-- A start that succeeds enters the service that was asked for; one that fails enters nothing. -/
theorem start_spec (l : Ledger) (spec : ServiceSpec) (id : Uuid) (now : Instant) :
    (l.start spec id now).2.node = l.node ∧
      match (l.start spec id now).1 with
      | .ok s => (l.start spec id now).2.services = l.services.insert id s ∧ s.id = id ∧
          Serves spec l.node now s
      | .error _ => (l.start spec id now).2.services = l.services := by
  rw [start]
  split
  · exact ⟨rfl, rfl⟩
  · rw [reserve]
    split
    · exact ⟨rfl, rfl⟩
    · next reserved hreserve =>
      split at hreserve
      · cases hreserve
        obtain ⟨hnode, hservices⟩ :=
          nameFor_keeps { l with reserved := l.reserved + spec.memory } spec
        have hname := fun name (h : spec.name = some name) =>
          @name_nameFor { l with reserved := l.reserved + spec.memory } spec name h
        generalize nameFor { l with reserved := l.reserved + spec.memory } spec = p at *
        obtain ⟨name, named⟩ := p
        dsimp only at hnode hservices hname ⊢
        rw [claim?]
        split
        · next hclaim =>
          exact ⟨hnode, hservices⟩
        · next claimed hclaim =>
          split at hclaim
          · cases hclaim
          · cases hclaim
            refine ⟨hnode, ?_, rfl, rfl, rfl, rfl, hname, hnode, rfl⟩
            rw [← hservices]
            rfl
      · cases hreserve

end Fleet.Ledger

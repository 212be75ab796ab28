import Fleet.Proofs.Cluster.Moves
import Fleet.Proofs.Cluster.Sound
import Fleet.Proofs.Node.Turns

/-!
# Turns in the queues of a cluster

Whichever tasks of a cluster go on and in whatever order, each node attends to its queues: its
follower takes messages in and closes queues, the tasks of the queues take their steps, and all
other tasks leave the queues alone.  So what holds of a node and its log holds of every node of a
cluster, under every schedule.

## Main definitions

* `Cluster.Attended` — one cluster has come from another, and every node attended to its queues.

## Main statements

* `Cluster.attended_step`, `Cluster.attended_run` — the step of a task, and a whole schedule.
-/

namespace Fleet

variable {σ : Type} [Transport σ]

namespace Site

variable {start s s' : Site σ} {log log' : List Inbound.Note}

theorem Attends.trans (h : start.Attends log s) (h' : s.Attends log' s') :
    start.Attends (log ++ log') s' := by
  induction h' with
  | start =>
    rw [List.append_nil]
    exact h
  | attends h' x ih =>
    rw [← List.append_assoc]
    exact ih.attends x
  | elsewhere h' hspares ih => exact ih.elsewhere hspares

end Site

theorem Work.Move.spares {s s' : Site σ} {work work' : Work} (h : Work.Move s work work' s') :
    s.Spares s' := by
  cases h with
  | query hmove | creation hmove | dispatch hmove => exact hmove.spares

namespace Cluster

/-- Every node has come to where it is and attended to its queues. -/
def Attended (w w' : Cluster σ) : Prop :=
  ∀ (place : Nat) (station : Station), w.stations[place]? = some station →
    ∃ log station', w'.stations[place]? = some station' ∧
      (w.site station).Attends log (w'.site station')

variable {w w' w'' : Cluster σ}

theorem Attended.refl (w : Cluster σ) : w.Attended w :=
  fun _ station hplace => ⟨[], station, hplace, .start⟩

theorem Attended.trans (h : w.Attended w') (h' : w'.Attended w'') : w.Attended w'' := by
  intro place station hplace
  obtain ⟨log, station', hplace', hattends⟩ := h place station hplace
  obtain ⟨log', station'', hplace'', hattends'⟩ := h' place station' hplace'
  exact ⟨log ++ log', station'', hplace'', hattends.trans hattends'⟩

/-- One node has attended to its queues, and nothing has happened to the others. -/
theorem Attended.of_set {place : Nat} {station station' : Station} {log : List Inbound.Note}
    {s : Site σ} (hplace : w.stations[place]? = some station)
    (hstations : w'.stations = w.stations.set place station') (hnode : station'.node = s.node)
    (hattends : (w.site station).Attends log s) : w.Attended w' := by
  intro p other hother
  rw [hstations, List.getElem?_set]
  split
  · next heq =>
    subst heq
    obtain rfl := Option.some.inj (hplace.symm.trans hother)
    obtain ⟨hlt, -⟩ := List.getElem?_eq_some_iff.1 hplace
    rw [if_pos hlt]
    have hsame : s.Spares (w'.site station') :=
      ⟨congrArg (·.inbound) hnode, (congrArg (·.messenger.nextTicket) hnode).ge⟩
    exact ⟨log, station', rfl, hattends.elsewhere hsame⟩
  · exact ⟨[], other, hother, Site.Attends.start.elsewhere ⟨rfl, le_refl _⟩⟩

theorem attended_drain (w : Cluster σ) (place queue : Nat) :
    w.Attended (w.step (.drain place queue)) := by
  rw [step]
  split
  · cases hplace : w.stations[place]? with
    | none =>
      simp only [act, hplace]
      exact .refl w
    | some station =>
      simp only [act, hplace]
      exact .of_set hplace rfl rfl (Site.Attends.start.attends (.drain queue))
  · exact .refl w

/-- Whichever task goes on, every node attends to its queues. -/
theorem attended_step (w : Cluster σ) (t : Task) : w.Attended (w.step t) := by
  have hmove := move_step w t
  cases t with
  | drain place queue => exact attended_drain w place queue
  | job n =>
    generalize w.step (.job n) = w' at hmove ⊢
    cases hmove with
    | @job n j station work s hjob hplace hmove =>
      have hretired : s.Spares (retire j.work work s) := by
        obtain ⟨creations, heq⟩ := retire_eq s j.work work
        rw [heq]
        exact ⟨rfl, le_refl _⟩
      exact .of_set hplace rfl rfl
        ((Site.Attends.start.elsewhere hmove.spares).elsewhere hretired)
    | rests => exact .refl w
  | follow place =>
    generalize w.step (.follow place) = w' at hmove ⊢
    cases hmove with
    | @follows place station f e links hplace hfollower htake =>
      have hfree : (w.site station).Spares (({ w with links }).site station) := ⟨rfl, le_refl _⟩
      exact .of_set hplace rfl rfl ((Site.Attends.start.elsewhere hfree).handle e)
    | looks hplace => exact .of_set hplace rfl rfl .start
    | rests => exact .refl w
  | publish place k =>
    generalize w.step (.publish place k) = w' at hmove ⊢
    cases hmove with
    | @reports place k station publishers hplace =>
      exact .of_set hplace rfl rfl
        (Site.Attends.start.elsewhere ((w.site station).spares_publish w.cpu))
    | waits publishers hplace => exact .of_set hplace rfl rfl .start
    | rests => exact .refl w

/-- Under every schedule, every node attends to its queues. -/
theorem attended_run (w : Cluster σ) (tasks : List Task) : w.Attended (tasks.foldl step w) := by
  induction tasks generalizing w with
  | nil => exact .refl w
  | cons t rest ih => exact (w.attended_step t).trans (ih (w.step t))

end Cluster

end Fleet

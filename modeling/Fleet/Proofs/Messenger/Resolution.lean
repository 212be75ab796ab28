import Fleet.Messenger
import Mathlib.Data.List.Induction
import Mathlib.Data.List.Nodup

/-!
# What targets stand for

The targets of a message are taken one after another, and each adds the connections it means that no
earlier one has added. So every connection that some target means is found once, in the order of
the targets.

## Main definitions

* `Target.Means` — the connections that a target means.
* `firstMeant` — the place of the first target that means a connection.
* `Found` — what targets stand for.

## Main statements

* `found_resolve` — what targets stand for is found.
-/

namespace Fleet

open List

/-- A node means the connection with its id; every other target means all connections. -/
def Target.Means (t : Target) (id : String) : Prop := t.kind = .node → t.value = some id

instance (t : Target) (id : String) : Decidable (t.Means id) :=
  inferInstanceAs (Decidable (t.kind = .node → t.value = some id))

/-- The place of the first target that means a connection; their number if none does. -/
def firstMeant (targets : List Target) (id : String) : Nat := targets.findIdx (·.Means id)

/-- What targets stand for: the connections that one of them means, each once, those that an earlier
target means before those that only later ones mean, and those that one target adds in the order of
the connections. -/
structure Found (connections : List String) (targets : List Target) (found : List String) :
    Prop where
  nodup : found.Nodup
  mem_iff : ∀ id, id ∈ found ↔ id ∈ connections ∧ ∃ t ∈ targets, t.Means id
  ordered : found.Pairwise fun a b => firstMeant targets a < firstMeant targets b ∨
    firstMeant targets a = firstMeant targets b ∧ [a, b] <+ connections

variable {connections found : List String} {targets : List Target} {t : Target}

theorem Target.matching_eq (connections : List String) (t : Target) :
    t.matching connections = connections.filter (t.Means ·) := by
  obtain ⟨kind, value⟩ := t
  cases kind with
  | node => simp [matching, Means, eq_comm]
  | service | group | all => simp [matching, Means]

/-- Texts without repetition are added if they are new. -/
theorem appendNew_eq {texts : List String} (h : texts.Nodup) (known : List String) :
    appendNew known texts = known ++ texts.filter (· ∉ known) := by
  induction texts generalizing known with
  | nil => simp [appendNew]
  | cons s rest ih =>
    obtain ⟨hs, hrest⟩ := nodup_cons.1 h
    have hstep : appendNew known (s :: rest) =
        appendNew (if s ∈ known then known else known ++ [s]) rest := rfl
    rw [hstep, ih hrest]
    by_cases hmem : s ∈ known
    · rw [if_pos hmem, filter_cons_of_neg (by simpa using hmem)]
    · have hsame : rest.filter (· ∉ known ++ [s]) = rest.filter (· ∉ known) := by
        refine filter_congr fun x hx => ?_
        have hne : x ≠ s := fun heq => hs (heq ▸ hx)
        simp [hne]
      rw [if_neg hmem, filter_cons_of_pos (by simpa using hmem), hsame, append_assoc]
      rfl

theorem resolve_concat (h : connections.Nodup) (targets : List Target) (t : Target) :
    resolve connections (targets ++ [t]) = resolve connections targets ++
      connections.filter fun id => t.Means id ∧ id ∉ resolve connections targets := by
  rw [resolve, foldl_concat, ← resolve, t.matching_eq, appendNew_eq (h.filter _), filter_filter]
  simp only [Bool.decide_and, and_comm]

/-- A connection that an earlier target means is meant there first. -/
theorem firstMeant_concat_of_meant {id : String} (h : ∃ t ∈ targets, t.Means id) (t : Target) :
    firstMeant (targets ++ [t]) id = firstMeant targets id := by
  rw [firstMeant, findIdx_append, if_pos]
  · rfl
  · obtain ⟨t', hmem, hmeans⟩ := h
    exact findIdx_lt_length_of_exists ⟨t', hmem, by simpa using hmeans⟩

theorem firstMeant_lt_length {id : String} (h : ∃ t ∈ targets, t.Means id) :
    firstMeant targets id < targets.length := by
  obtain ⟨t, hmem, hmeans⟩ := h
  exact findIdx_lt_length_of_exists ⟨t, hmem, by simpa using hmeans⟩

/-- A connection that only the last target means is meant there first. -/
theorem firstMeant_concat_of_new {id : String} (h : ¬ ∃ t ∈ targets, t.Means id)
    (hmeans : t.Means id) : firstMeant (targets ++ [t]) id = targets.length := by
  have hnone : targets.findIdx (·.Means id) = targets.length := by
    refine findIdx_eq_length.2 fun t' hmem => ?_
    simpa using fun hmeans' => h ⟨t', hmem, hmeans'⟩
  rw [firstMeant, findIdx_append, hnone, if_neg (Nat.lt_irrefl _), findIdx_singleton]
  simp [hmeans]

/-- One more target adds the connections that it means and no earlier one does. -/
theorem Found.concat (hconnections : connections.Nodup) (h : Found connections targets found)
    (t : Target) : Found connections (targets ++ [t])
      (found ++ connections.filter fun id => t.Means id ∧ id ∉ found) := by
  have hadded : ∀ id, id ∈ connections.filter (fun id => t.Means id ∧ id ∉ found) ↔
      id ∈ connections ∧ t.Means id ∧ id ∉ found := by simp
  have hold : ∀ id ∈ found, firstMeant (targets ++ [t]) id = firstMeant targets id ∧
      firstMeant targets id < targets.length := fun id hid =>
    have hmeant := ((h.mem_iff id).1 hid).2
    ⟨firstMeant_concat_of_meant hmeant t, firstMeant_lt_length hmeant⟩
  have hnew : ∀ id ∈ connections.filter (fun id => t.Means id ∧ id ∉ found),
      firstMeant (targets ++ [t]) id = targets.length := by
    intro id hid
    obtain ⟨hconnected, hmeans, hout⟩ := (hadded id).1 hid
    exact firstMeant_concat_of_new
      (fun hmeant => hout ((h.mem_iff id).2 ⟨hconnected, hmeant⟩)) hmeans
  refine ⟨?_, fun id => ?_, pairwise_append.2 ⟨?_, ?_, ?_⟩⟩
  · refine nodup_append.2 ⟨h.nodup, hconnections.filter _, ?_⟩
    rintro a ha b hb rfl
    exact ((hadded a).1 hb).2.2 ha
  · rw [mem_append, hadded, h.mem_iff]
    simp only [mem_append, mem_singleton]
    constructor
    · rintro (⟨hconnected, t', hmem, hmeans⟩ | ⟨hconnected, hmeans, -⟩)
      · exact ⟨hconnected, t', .inl hmem, hmeans⟩
      · exact ⟨hconnected, t, .inr rfl, hmeans⟩
    · rintro ⟨hconnected, t', hmem | rfl, hmeans⟩
      · exact .inl ⟨hconnected, t', hmem, hmeans⟩
      · by_cases hid : ∃ t ∈ targets, t.Means id
        · exact .inl ⟨hconnected, hid⟩
        · exact .inr ⟨hconnected, hmeans, fun hmeant => hid hmeant.2⟩
  · refine h.ordered.imp_of_mem fun {a b} ha hb hab => ?_
    rwa [(hold a ha).1, (hold b hb).1]
  · have hsub : ∀ {a b : String}, [a, b] <+ connections.filter
        (fun id => t.Means id ∧ id ∉ found) → [a, b] <+ connections :=
      fun hpair => hpair.trans filter_sublist
    refine pairwise_iff_forall_sublist.2 fun {a b} hpair => .inr ⟨?_, hsub hpair⟩
    rw [hnew a (hpair.subset (by simp)), hnew b (hpair.subset (by simp))]
  · intro a ha b hb
    rw [(hold a ha).1, hnew b hb]
    exact .inl (hold a ha).2

/-- What targets stand for is found. -/
theorem found_resolve (h : connections.Nodup) (targets : List Target) :
    Found connections targets (resolve connections targets) := by
  induction targets using reverseRecOn with
  | nil => exact ⟨nodup_nil, by simp [resolve], .nil⟩
  | append_singleton targets t ih =>
    rw [resolve_concat h]
    exact ih.concat h t

/-- As many connections are found as some target means. -/
theorem Found.length_eq (hconnections : connections.Nodup) (h : Found connections targets found) :
    found.length = (connections.filter fun id => ∃ t ∈ targets, t.Means id).length := by
  refine ((perm_ext_iff_of_nodup h.nodup (hconnections.filter _)).2 fun id => ?_).length_eq
  simpa using h.mem_iff id

end Fleet

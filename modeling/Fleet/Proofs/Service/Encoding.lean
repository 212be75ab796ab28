import Fleet.Node.Creation
import Fleet.Proofs.Json.RoundTrip
import Fleet.Proofs.Instant.Text
import Fleet.Proofs.Uuid

/-!
# Specifications and services read back

What one node writes for a specification or a service is read by another as the same specification
or service. The properties of a specification may be written in any order: properties are what they
say about every key, and reading them asks for each key alone.

## Main statements

* `Properties.ext_get?` — properties that say the same about every key are equal.
* `Properties.ofList_of_perm` — properties read from their entries in any order.
* `ServiceSpec.ofBytes?_bytes`, `Service.ofBytes?_bytes` — what is written reads back.
-/

namespace Fleet

theorem mapM_map_eq_some {α β : Type} {f : β → Option α} {g : α → β} (h : ∀ x, f (g x) = some x)
    (l : List α) : (l.map g).mapM f = some l := by
  induction l with
  | nil => rfl
  | cons x l ih => simp [h, ih]

namespace Json

@[simp] theorem text?_text (s : String) : (text s).text? = some s := rfl

@[simp] theorem symbol?_text (s : String) : (text s).symbol? = some s := rfl

@[simp] theorem word?_word (n : UInt64) : (word n).word? = some n := rfl

@[simp] theorem plain_text (s : String) : (text s).plain = true := rfl

@[simp] theorem plain_word (n : UInt64) : (word n).plain = true := rfl

theorem plain_record (members : List (String × Json)) :
    (record members).plain = members.all fun m => m.2.plain := by
  rw [record, plain]
  induction members with
  | nil => rfl
  | cons m members ih =>
    rw [List.map_cons, plainMembers, ih]
    rfl

end Json

/-! ### Properties in any order -/

namespace Properties

variable {p q : Properties} {k v : String} {entries : List (String × String)}

/-- Among entries with different keys the value that is found under a key is that of its entry. -/
theorem find?_eq_some_iff_mem (hkeys : entries.Pairwise fun a b => a.1 ≠ b.1) :
    (entries.find? fun e => e.1 = k).map Prod.snd = some v ↔ (k, v) ∈ entries := by
  induction entries with
  | nil => simp
  | cons e entries ih =>
    obtain ⟨hne, hkeys⟩ := List.pairwise_cons.1 hkeys
    by_cases he : e.1 = k
    · have hout : (k, v) ∉ entries := fun hmem => hne _ hmem he
      simp [he, hout, Prod.ext_iff, eq_comm]
    · have hout : (k, v) ≠ e := fun heq => he (heq ▸ rfl)
      simp [he, hout, ih hkeys]

theorem keys_ne (p : Properties) : p.entries.Pairwise fun a b => a.1 ≠ b.1 := by
  refine p.sorted.imp fun {a b} hlt heq => ?_
  rw [heq] at hlt
  exact String.lt_irrefl _ hlt

theorem get?_eq_some_iff : p.get? k = some v ↔ (k, v) ∈ p.entries :=
  find?_eq_some_iff_mem p.keys_ne

/-- Properties that say the same about every key are equal, since entries stand in one order. -/
theorem ext_get? (h : ∀ k, p.get? k = q.get? k) : p = q := by
  have hnodup : ∀ p : Properties, p.entries.Nodup := fun p =>
    p.keys_ne.imp fun hne heq => hne (congrArg Prod.fst heq)
  have hperm : p.entries.Perm q.entries := (List.perm_ext_iff_of_nodup (hnodup p) (hnodup q)).2
    fun e => by rw [← get?_eq_some_iff, ← get?_eq_some_iff, h]
  have hentries : p.entries = q.entries := hperm.eq_of_pairwise
    (fun a b _ _ hab hba => absurd (String.lt_trans hab hba) (String.lt_irrefl _)) p.sorted q.sorted
  cases p
  cases q
  cases hentries
  rfl

/-- After entries have been given one after another, the last one with a key counts. -/
theorem get?_foldl_insert (p : Properties) (entries : List (String × String)) (k : String) :
    (entries.foldl (fun p e => p.insert e.1 e.2) p).get? k =
      ((entries.reverse.find? fun e => e.1 = k).map Prod.snd).or (p.get? k) := by
  induction entries generalizing p with
  | nil => rfl
  | cons e entries ih =>
    rw [List.foldl_cons, ih, get?_insert, List.reverse_cons, List.find?_append]
    cases entries.reverse.find? fun e => e.1 = k with
    | some e' => rfl
    | none => by_cases he : e.1 = k <;> simp [he]

/-- Properties are read from their entries in any order. -/
theorem ofList_of_perm (h : entries.Perm p.entries) : ofList entries = p := by
  have hkeys : entries.reverse.Pairwise fun a b => a.1 ≠ b.1 :=
    ((entries.reverse_perm.trans h).pairwise_iff fun hne => hne.symm).2 p.keys_ne
  refine ext_get? fun k => Option.ext fun v => ?_
  rw [ofList, get?_foldl_insert, show empty.get? k = none from rfl, Option.or_none,
    find?_eq_some_iff_mem hkeys, List.mem_reverse, h.mem_iff, get?_eq_some_iff]

/-- Every order in which the entries of a collection can stand is the one in which some order meets
them. -/
theorem Order.exists_arrange_eq (h : entries.Perm p.entries) :
    ∃ o : Order, o.arrange p.entries = entries := by
  refine ⟨⟨fun es => if es = p.entries then entries else es, fun es => ?_⟩, if_pos rfl⟩
  split
  · next heq => exact heq ▸ h
  · exact .refl es

end Properties

/-! ### Parts -/

theorem Properties.ofJson?_toJson (p : Properties) (o : Order) : ofJson? (p.toJson o) = some p := by
  have hmembers := mapM_map_eq_some (f := fun m : Option String × Json => do
    some (← m.1, ← m.2.text?)) (g := fun e : String × String => (some e.1, .text e.2))
    (fun _ => rfl) (o.arrange p.entries)
  have hjson : p.toJson o = .object ((o.arrange p.entries).map fun e => (some e.1, .text e.2)) := by
    simp [toJson, Json.record]
  rw [hjson, ofJson?, hmembers, Option.map_some, ofList_of_perm (o.perm p.entries)]

theorem Properties.plain_toJson (p : Properties) (o : Order) : (p.toJson o).plain = true := by
  rw [toJson, Json.plain_record]
  simp

theorem textsOfJson?_textsToJson (texts : List String) :
    textsOfJson? (textsToJson texts) = some texts :=
  mapM_map_eq_some (g := Json.text) (fun _ => rfl) texts

theorem plain_textsToJson (texts : List String) : (textsToJson texts).plain = true := by
  rw [textsToJson, Json.plain]
  induction texts with
  | nil => rfl
  | cons s texts ih =>
    rw [List.map_cons, Json.plainItems, ih]
    rfl

theorem halfWord?_word (p : UInt16) : (Json.word p.toUInt64).halfWord? = some p := by
  have hlt : p.toNat < 0x10000 := p.toNat_lt
  simp [Json.halfWord?, Json.word, Json.word?, hlt]

theorem Lifecycle.ofName?_name (l : Lifecycle) : ofName? l.name = some l := by
  cases l <;> rfl

/-! ### Specifications -/

theorem ServiceSpec.ofJson?_toJson (s : ServiceSpec) (o : Properties.Order) :
    ofJson? (s.toJson o) = some s := by
  have hfields : (s.toJson o).fields?
      ["taskName", "name", "maxHeapMemoryMb", "groups", "port", "properties"] =
        some [some (.text s.task), s.name.map .text, some (.word s.memory),
          some (textsToJson s.groups), s.port.map fun p => .word p.toUInt64,
          some (s.properties.toJson o)] := by
    cases hname : s.name <;> cases hport : s.port <;>
      simp [toJson, hname, hport, Json.record, Json.fields?, Json.fieldsByName?, Json.field?,
        Json.given]
  have hname : Json.optional Json.text? (s.name.map .text) = some s.name := by
    cases s.name <;> rfl
  have hport : Json.optional Json.halfWord? (s.port.map fun p => .word p.toUInt64) =
      some s.port := by
    cases s.port with
    | none => rfl
    | some p => exact congrArg (Option.map some) (halfWord?_word p)
  simp [ofJson?, hfields, hname, hport, Json.required, Json.withDefault,
    textsOfJson?_textsToJson, Properties.ofJson?_toJson]

theorem ServiceSpec.plain_toJson (s : ServiceSpec) (o : Properties.Order) :
    (s.toJson o).plain = true := by
  have hgroups := plain_textsToJson s.groups
  have hproperties := s.properties.plain_toJson o
  rw [toJson, Json.plain_record]
  cases s.name <;> cases s.port <;> simp [hgroups, hproperties]

/-- A specification reads back from its bytes, in whatever order its properties were written. -/
theorem ServiceSpec.ofBytes?_bytes (s : ServiceSpec) (o : Properties.Order) :
    ofBytes? (s.bytes o) = some s := by
  rw [ofBytes?, bytes, Json.read?_write (s.plain_toJson o), Option.bind_some, ofJson?_toJson]

/-! ### Services -/

theorem Service.ofJson?_toJson {s : Service} (hs : s.created.Regular) :
    ofJson? s.toJson = some s := by
  have hfields : s.toJson.fields? ["serviceId", "name", "taskName", "nodeId", "lifecycle",
      "memoryMb", "groups", "createdAt"] =
        some [some (.text s.id.text), some (.text s.name), some (.text s.task),
          some (.text s.node), some (.text s.lifecycle.name), some (.word s.memory),
          some (textsToJson s.groups), some (.text s.created.text)] := by
    simp [toJson, Json.record, Json.fields?, Json.fieldsByName?, Json.field?, Json.given]
  simp [ofJson?, hfields, Json.required, Json.withDefault, textsOfJson?_textsToJson,
    Lifecycle.ofName?_name, Uuid.ofJson?, Uuid.parse?_text, Instant.ofJson?,
    Instant.parse?_text hs]

theorem Service.plain_toJson (s : Service) : s.toJson.plain = true := by
  have hgroups := plain_textsToJson s.groups
  rw [toJson, Json.plain_record]
  simp [hgroups]

/-- A service reads back from its bytes. -/
theorem Service.ofBytes?_bytes {s : Service} (hs : s.created.Regular) :
    ofBytes? s.bytes = some s := by
  rw [ofBytes?, bytes, Json.read?_write s.plain_toJson, Option.bind_some, ofJson?_toJson hs]

end Fleet

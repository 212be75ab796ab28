import Fleet.Proofs.Service.Encoding
import Fleet.Wire.Frame

/-!
# Frames read back

A frame is taken apart by the lengths in front of its chunks, and its header is read as JSON, by
name and beside the kind of the frame. Whatever the strings of the header and the bytes of the
content are, a frame that keeps the rules for messages comes out as it went in, as long as the
lengths fit into their four bytes. What is read from a connection keeps the rules, so it can be sent
on without a change.

## Main definitions

* `Frame.Valid`, `Frame.Fits` — frames that may be sent, and that can be.

## Main statements

* `Header.ofJson?_toJson` — a header reads back from its value.
* `Frame.takeChunk_chunk` — a chunk is taken off the front.
* `Frame.reads_back` — a frame reads back from its bytes.
-/

namespace Fleet

/-! ### Values that can be kept whole -/

namespace Json

mutual

/-- A value without literals that stand for nothing. -/
theorem exact_of_plain : ∀ {j : Json}, j.plain = true → j.exact = true
  | .null, _ | .bool _, _ | .number (.natural _), _ | .string (some _), _ => rfl
  | .array _, h => exactItems_of_plain h
  | .object _, h => exactMembers_of_plain h

theorem exactItems_of_plain : ∀ {items : List Json},
    plainItems items = true → exactItems items = true
  | [], _ => rfl
  | v :: rest, h => by
    rw [plainItems, Bool.and_eq_true] at h
    rw [exactItems, exact_of_plain h.1, exactItems_of_plain h.2]
    rfl

theorem exactMembers_of_plain : ∀ {members : List (Option String × Json)},
    plainMembers members = true → exactMembers members = true
  | [], _ => rfl
  | (k, v) :: rest, h => by
    rw [plainMembers, Bool.and_eq_true, Bool.and_eq_true] at h
    rw [exactMembers, h.1.1, exact_of_plain h.1.2, exactMembers_of_plain h.2]
    rfl

end

@[simp] theorem depth_text (s : String) : (text s).depth = 0 := rfl

@[simp] theorem depth_bool (b : Bool) : (bool b).depth = 0 := rfl

@[simp] theorem plain_bool (b : Bool) : (bool b).plain = true := rfl

/-- An object is no deeper than one level above its members. -/
theorem depth_record_le {members : List (String × Json)} (n : Nat)
    (h : ∀ m ∈ members, m.2.depth ≤ n) : (record members).depth ≤ 1 + n := by
  have hmembers : depthMembers (members.map fun m => (some m.1, m.2)) ≤ n := by
    induction members with
    | nil => exact Nat.zero_le n
    | cons m rest ih =>
      have hrest := ih fun m hm => h m (.tail _ hm)
      exact Nat.max_le.2 ⟨h m (.head _), hrest⟩
  exact Nat.add_le_add_left hmembers 1

/-- An array is no deeper than one level above its items. -/
theorem depth_array_le {items : List Json} (n : Nat) (h : ∀ v ∈ items, v.depth ≤ n) :
    (array items).depth ≤ 1 + n := by
  have hitems : depthItems items ≤ n := by
    induction items with
    | nil => exact Nat.zero_le n
    | cons v rest ih =>
      have hrest := ih fun v hv => h v (.tail _ hv)
      exact Nat.max_le.2 ⟨h v (.head _), hrest⟩
  exact Nat.add_le_add_left hitems 1

theorem plain_array {items : List Json} (h : ∀ v ∈ items, v.plain = true) :
    (array items).plain = true := by
  rw [plain]
  induction items with
  | nil => rfl
  | cons v rest ih =>
    rw [plainItems, h v (.head _), ih fun v hv => h v (.tail _ hv)]
    rfl

theorem usable_of_plain {j : Json} (hplain : j.plain = true) (hdepth : j.depth ≤ maxDepth) :
    j.usable = true := by
  rw [usable, exact_of_plain hplain, decide_eq_true hdepth]
  rfl

end Json

/-! ### Identities and targets -/

theorem Identity.ofJson?_toJson (i : Identity) : ofJson? i.toJson = some i := by
  simp [ofJson?, toJson, Json.record, Json.fields?, Json.fieldsByName?, Json.field?, Json.given,
    Json.required]

theorem Identity.plain_toJson (i : Identity) : i.toJson.plain = true := by
  simp [toJson, Json.plain_record]

theorem Identity.depth_toJson_le (i : Identity) : i.toJson.depth ≤ 1 := by
  rw [toJson]
  exact Json.depth_record_le 0 (by simp)

theorem TargetKind.ofName?_name (k : TargetKind) : ofName? k.name = some k := by
  cases k <;> rfl

/-- A target reads back with any reader that reads the names of kinds. -/
theorem Target.read?_toJson {symbol? : Json → Option String}
    (hsymbol : ∀ s, symbol? (.string (some s)) = some s) (t : Target) :
    Target.read? symbol? t.toJson = some t := by
  obtain ⟨kind, value⟩ := t
  cases value <;>
    simp [read?, toJson, Json.record, Json.fields?, Json.fieldsByName?, Json.field?, Json.given,
      Json.required, Json.optional, hsymbol, TargetKind.ofName?_name, Json.nullable?, Json.text,
      Json.text?]

theorem Target.plain_toJson (t : Target) : t.toJson.plain = true := by
  rw [toJson, Json.plain_record]
  cases t.value <;> simp

theorem Target.depth_toJson_le (t : Target) : t.toJson.depth ≤ 1 := by
  rw [toJson]
  exact Json.depth_record_le 0 (by cases t.value <;> simp)

/-! ### Headers -/

namespace Header

theorem plain_toJson (h : Header) : h.toJson.plain = true := by
  cases h with
  | hello node => simp [toJson, Json.plain_record, node.plain_toJson]
  | message channel sender targets query correlation =>
    have htargets : (Json.array (targets.map Target.toJson)).plain = true :=
      Json.plain_array (by simp [Target.plain_toJson])
    rw [toJson, Json.plain_record]
    cases correlation <;> simp [htargets]

theorem depth_toJson_le (h : Header) : h.toJson.depth ≤ Json.maxDepth := by
  have hle : h.toJson.depth ≤ 3 := by
    cases h with
    | hello node =>
      have hnode : node.toJson.depth ≤ 2 := node.depth_toJson_le.trans (by decide)
      rw [toJson]
      exact Json.depth_record_le 2 (by simp [hnode])
    | message channel sender targets query correlation =>
      have htargets : (Json.array (targets.map Target.toJson)).depth ≤ 2 :=
        Json.depth_array_le 1 (by simp [Target.depth_toJson_le])
      rw [toJson]
      exact Json.depth_record_le 2 (by cases correlation <;> simp [htargets])
  exact hle.trans (by decide)

theorem messageOfJson?_members (channel sender : String) (targets : List Target) (query : Bool)
    (correlation : Option Uuid) :
    messageOfJson? (.record <| [("channel", .text channel), ("sender", .text sender),
      ("targets", .array (targets.map Target.toJson)), ("query", .bool query)] ++
      (correlation.map fun id => ("correlationId", .text id.text)).toList) =
        some (.message channel sender targets query correlation) := by
  have htargets : Json.list? (Target.read? Json.keptSymbol?)
      (.array (targets.map Target.toJson)) = some targets :=
    mapM_map_eq_some (fun t => Target.read?_toJson (fun _ => rfl) t) targets
  cases correlation <;>
    simp [messageOfJson?, Json.record, Json.fields?, Json.fieldsByName?, Json.field?, Json.given,
      Json.required, Json.optional, Json.nullable?, Json.bool?, Json.text, Json.text?, htargets,
      Uuid.ofJson?, Uuid.parse?_text]

/-- A header reads back from its value. -/
theorem ofJson?_toJson (h : Header) : ofJson? h.toJson = some h := by
  have husable := Json.usable_of_plain h.plain_toJson h.depth_toJson_le
  rw [ofJson?, husable]
  cases h with
  | hello node =>
    have htagged : tagged? (Header.hello node).toJson =
        some ("hello", .record [("node", node.toJson)]) := by
      simp [tagged?, toJson, Json.record, Json.given, Json.text]
    have hread : helloOfJson? (.record [("node", node.toJson)]) = some (.hello node) := by
      simp [helloOfJson?, Json.record, Json.fields?, Json.fieldsByName?, Json.field?, Json.given,
        Json.required, Identity.ofJson?_toJson]
    simp [htagged, hread]
  | message channel sender targets query correlation =>
    have htagged : tagged? (Header.message channel sender targets query correlation).toJson =
        some ("message", .record <| [("channel", .text channel), ("sender", .text sender),
          ("targets", .array (targets.map Target.toJson)), ("query", .bool query)] ++
          (correlation.map fun id => ("correlationId", .text id.text)).toList) := by
      cases correlation <;> simp [tagged?, toJson, Json.record, Json.given, Json.text]
    rw [htagged]
    exact messageOfJson?_members channel sender targets query correlation

end Header

/-! ### Chunks -/

namespace Frame

/-- The least length that four bytes cannot hold. -/
def lengthBound : Nat := 0x100000000

theorem lengthOf_lengthBytes {n : Nat} (hn : n < lengthBound) :
    ∃ a b c d, lengthBytes n = [a, b, c, d] ∧ lengthOf a b c d = n := by
  refine ⟨_, _, _, _, rfl, ?_⟩
  rw [lengthBound] at hn
  simp only [lengthOf, Nat.toUInt8, UInt8.toNat_ofNat']
  omega

/-- A chunk is taken off the front of what follows it. -/
theorem takeChunk_chunk {b : Bytes} (hb : b.length < lengthBound) (rest : Bytes) :
    takeChunk (chunk b ++ rest) = .ok (b, rest) := by
  obtain ⟨w, x, y, z, hbytes, hlength⟩ := lengthOf_lengthBytes hb
  have hfits : ¬ (b ++ rest).length < b.length := by simp
  rw [chunk, hbytes, List.append_assoc]
  simp only [List.cons_append, List.nil_append, takeChunk, hlength, if_neg hfits]
  rw [List.take_left, List.drop_left]

/-! ### Frames -/

/-- A frame that may be sent: a message keeps the rules. -/
def Valid : Frame → Prop
  | .hello _ => True
  | .message m => m.Valid

/-- The lengths of both chunks fit into four bytes. -/
def Fits (f : Frame) : Prop := f.headerBytes.length < lengthBound ∧ f.content.length < lengthBound

instance (f : Frame) : Decidable f.Fits :=
  inferInstanceAs (Decidable (f.headerBytes.length < lengthBound ∧ f.content.length < lengthBound))

theorem readHeader_headerBytes (f : Frame) : readHeader f.headerBytes = .ok f.header := by
  rw [readHeader, headerBytes, Json.read?_write f.header.plain_toJson, Option.bind_some,
    Header.ofJson?_toJson]

theorem ofHeader_eq_ok_iff {content : Bytes} {channel sender : String} {targets : List Target}
    {query : Bool} {correlation : Option Uuid} {f : Frame} :
    ofHeader content (.message channel sender targets query correlation) = .ok f ↔
      f = .message { channel, sender, targets, content, query, correlation } ∧ f.Valid := by
  rw [ofHeader, Message.checked]
  cases hfault : Message.fault? { channel, sender, targets, content, query, correlation } with
  | some e =>
    refine ⟨fun h => (nomatch h), ?_⟩
    rintro ⟨rfl, hvalid⟩
    rw [Message.fault?_eq_none_iff.2 hvalid] at hfault
    cases hfault
  | none =>
    have hvalid := Message.fault?_eq_none_iff.1 hfault
    refine ⟨fun h => ?_, ?_⟩
    · cases h
      exact ⟨rfl, hvalid⟩
    · rintro ⟨rfl, -⟩
      rfl

/-- The header and the content make the frame again exactly if it keeps the rules. -/
theorem ofHeader_header_iff {f : Frame} : ofHeader f.content f.header = .ok f ↔ f.Valid := by
  cases f with
  | hello node => exact ⟨fun _ => trivial, fun _ => rfl⟩
  | message m => exact ofHeader_eq_ok_iff.trans (and_iff_right rfl)

theorem bind_eq_ok_iff {ε α β : Type} {x : Except ε α} {g : α → Except ε β} {y : β} :
    x >>= g = .ok y ↔ ∃ a, x = .ok a ∧ g a = .ok y := by
  cases x <;> simp [bind, Except.bind]

/-- Bytes are a frame if two chunks come off their front, and the header in the first one makes a
frame with the second. -/
theorem decode_eq_ok_iff {b : Bytes} {f : Frame} :
    decode b = .ok f ↔ ∃ header rest, takeChunk b = .ok (header, rest) ∧
      ∃ content rest', takeChunk rest = .ok (content, rest') ∧
        ∃ h, readHeader header = .ok h ∧ ofHeader content h = .ok f := by
  simp only [decode, bind_eq_ok_iff, Prod.exists]

/-- The bytes of a frame are read as its header and its content. -/
theorem decode_encode {f : Frame} (hfits : f.Fits) :
    decode f.encode = ofHeader f.content f.header := by
  have hcontent := takeChunk_chunk hfits.2 []
  rw [List.append_nil] at hcontent
  simp only [decode, encode, takeChunk_chunk hfits.1, hcontent, readHeader_headerBytes, bind,
    Except.bind]

theorem decode_encode_iff {f : Frame} (hfits : f.Fits) : decode f.encode = .ok f ↔ f.Valid := by
  rw [decode_encode hfits, ofHeader_header_iff]

/-- What is read keeps the rules. -/
theorem valid_of_decode {b : Bytes} {f : Frame} (h : decode b = .ok f) : f.Valid := by
  obtain ⟨-, -, -, content, -, -, header, -, hframe⟩ := decode_eq_ok_iff.1 h
  cases header with
  | hello node =>
    cases hframe
    trivial
  | message => exact (ofHeader_eq_ok_iff.1 hframe).2

/-- A frame whose lengths fit reads back from its bytes exactly if it keeps the rules, and whatever
was read from any bytes reads back from its own. -/
theorem reads_back {f : Frame} (hfits : f.Fits) :
    (decode f.encode = .ok f ↔ f.Valid) ∧
      ∀ b, decode b = .ok f → decode f.encode = .ok f :=
  ⟨decode_encode_iff hfits, fun _ h => (decode_encode_iff hfits).2 (valid_of_decode h)⟩

/-- A query to targets of every kind, with characters that JSON escapes and content that is no
text. -/
def call : Message where
  channel := "say \"où\"\n"
  sender := "nœud-1"
  targets := [.node "b", ⟨.service, some "s"⟩, ⟨.group, some "g\t"⟩, .all, ⟨.all, some ""⟩]
  content := [0, 159, 255, 7]
  query := true
  correlation := some (.fresh 1)

theorem call_reads_back :
    (Frame.message call).Fits ∧ (Frame.message call).Valid ∧
      decode (Frame.message call).encode = .ok (.message call) := by
  have hfits : (Frame.message call).Fits := by decide +kernel
  have hvalid : call.Valid := by decide
  exact ⟨hfits, hvalid, (reads_back hfits).1.2 hvalid⟩

end Frame

end Fleet

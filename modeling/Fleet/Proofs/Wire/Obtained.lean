import Fleet.Proofs.Wire.RoundTrip
import Fleet.Wire.Stream

/-!
# What keeps the rules for messages

Messages are built, read from a frame, turned into queries and answered. Building and reading check
the rules, and a query keeps those of its message. A response is not checked: it goes to the node
that the query names as its sender, and nothing says that this is a name. So whatever comes about
keeps the rules, but for a response to a message without a sender's name, and for the query made of
it, and these are what a receiver refuses.

## Main definitions

* `Message.Obtained` — the messages that can come about.
* `Frame.nameless`, `Frame.misdirected` — a query without a sender's name, and a response to it.

## Main statements

* `Message.Obtained.keeps` — what comes about keeps the rules, or answers a message without a
  sender's name.
* `Message.Obtained.accepted_iff` — what a receiver accepts of what can be sent.
-/

namespace Fleet

namespace Message

theorem valid_of_checked {m checked : Message} (h : m.checked = .ok checked) : checked.Valid := by
  rw [Message.checked] at h
  split at h
  · cases h
  · next hfault =>
    cases h
    exact fault?_eq_none_iff.1 hfault

/-- A response keeps the rules if there is a name that it goes to. -/
theorem valid_responseFor_iff {m : Message} {sender : String} {content : Bytes} :
    (m.responseFor sender content).Valid ↔ m.channel ≠ "" ∧ m.sender ≠ "" := by
  simp [Valid, responseFor, Target.Valid, Target.node]

/-- The messages that come about by building, reading, asking and answering. -/
inductive Obtained : Message → Prop
  | built {channel sender : String} {targets : List Target} {content : Bytes} {m : Message}
    (h : new? channel sender targets content = .ok m) : Obtained m
  | read {b : Bytes} {m : Message} (h : Frame.decode b = .ok (.message m)) : Obtained m
  | query {m : Message} (id : Uuid) (h : Obtained m) : Obtained (m.intoQuery id)
  | response {m : Message} (sender : String) (content : Bytes) (h : Obtained m) :
    Obtained (m.responseFor sender content)

/-- A message that goes where the sender of another one should be, which gives no name. -/
def Misdirected (m : Message) : Prop :=
  ∃ q : Message, q.Obtained ∧ q.sender = "" ∧ m.channel = q.channel ∧ m.targets = [.node ""]

theorem Misdirected.not_valid {m : Message} (h : m.Misdirected) : ¬ m.Valid := by
  obtain ⟨-, -, -, -, htargets⟩ := h
  rintro ⟨-, -, hvalid⟩
  have hnode := hvalid (.node "") (by simp [htargets])
  simp [Target.Valid, Target.node] at hnode

/-- What comes about has a channel and keeps the rules, unless it is misdirected. -/
theorem Obtained.keeps {m : Message} (h : m.Obtained) :
    m.channel ≠ "" ∧ (m.Valid ∨ m.Misdirected) := by
  induction h with
  | built h =>
    have hvalid := valid_of_checked h
    exact ⟨hvalid.1, .inl hvalid⟩
  | read h =>
    have hvalid : Message.Valid _ := Frame.valid_of_decode h
    exact ⟨hvalid.1, .inl hvalid⟩
  | query id _ ih => exact ih
  | @response m sender content h ih =>
    refine ⟨ih.1, ?_⟩
    by_cases hsender : m.sender = ""
    · exact .inr ⟨m, h, hsender, rfl, by rw [responseFor, hsender]⟩
    · exact .inl (valid_responseFor_iff.2 ⟨ih.1, hsender⟩)

theorem Obtained.targets_ne_nil {m : Message} (h : m.Obtained) : m.targets ≠ [] := by
  obtain hvalid | ⟨-, -, -, -, htargets⟩ := h.keeps.2
  · exact hvalid.2.1
  · simp [htargets]

theorem Obtained.valid_iff {m : Message} (h : m.Obtained) :
    m.Valid ↔ Target.node "" ∉ m.targets := by
  constructor
  · rintro hvalid hmem
    have hnode := hvalid.2.2 _ hmem
    simp [Target.Valid, Target.node] at hnode
  · intro hmem
    obtain hvalid | ⟨-, -, -, -, htargets⟩ := h.keeps.2
    · exact hvalid
    · exact absurd (by simp [htargets]) hmem

/-- The one rule that what comes about can break. -/
theorem Obtained.fault?_eq {m : Message} (h : m.Obtained) (hvalid : ¬ m.Valid) :
    m.fault? = some (.missingValue .node) := by
  obtain ⟨-, -, -, -, htargets⟩ := h.keeps.2.resolve_left hvalid
  have hnode : ¬ (Target.node "").Valid := by decide
  rw [fault?, if_neg h.keeps.1, if_neg h.targets_ne_nil, htargets,
    List.find?_cons_of_pos (by simpa using hnode)]
  rfl

end Message

namespace Frame

/-- A frame that is short enough for a stream has lengths that fit into four bytes. -/
theorem fits_of_wrap? {f : Frame} {b : Bytes} (h : Stream.wrap? f.encode = some b) : f.Fits := by
  rw [Stream.wrap?] at h
  split at h
  · cases h
  · next hshort =>
    have hlength : f.headerBytes.length + f.content.length ≤ f.encode.length := by
      simp only [encode, chunk, List.length_append]
      omega
    rw [Stream.maxFrame] at hshort
    rw [Fits, lengthBound]
    omega

/-- A message is read back if it keeps the rules, and is refused for the first one it breaks if it
does not. -/
theorem decode_message {m : Message} (hfits : (Frame.message m).Fits) :
    decode (Frame.message m).encode =
      match m.fault? with
      | none => .ok (.message m)
      | some e => .error (.invalid e) := by
  rw [decode_encode hfits]
  change ofHeader m.content (.message ..) = _
  rw [ofHeader, Message.checked]
  cases m.fault? <;> rfl

end Frame

namespace Message

/-- Whatever comes about has a channel and a target. It keeps the rules unless one of its targets
is a node without a name, and then it was made of a response to a message without a sender's name; a
response keeps the rules exactly if the message it answers names its sender. What is short enough to
be sent and keeps the rules is read as it was by the receiver, and the rest is refused there. -/
theorem Obtained.accepted_iff {m : Message} (h : m.Obtained) :
    (m.channel ≠ "" ∧ m.targets ≠ []) ∧
      (m.Valid ↔ Target.node "" ∉ m.targets) ∧
      (m.Valid ↔ ¬ m.Misdirected) ∧
      (∀ sender content, (m.responseFor sender content).Valid ↔ m.sender ≠ "") ∧
      ∀ b, Stream.wrap? (Frame.message m).encode = some b →
        Frame.decode (Frame.message m).encode =
          if m.Valid then .ok (.message m) else .error (.invalid (.missingValue .node)) := by
  refine ⟨⟨h.keeps.1, h.targets_ne_nil⟩, h.valid_iff, ?_, fun sender content => ?_, fun b hb => ?_⟩
  · exact ⟨fun hvalid hmis => hmis.not_valid hvalid, h.keeps.2.resolve_right⟩
  · exact valid_responseFor_iff.trans (and_iff_right h.keeps.1)
  · rw [Frame.decode_message (Frame.fits_of_wrap? hb)]
    split_ifs with hvalid
    · rw [fault?_eq_none_iff.2 hvalid]
    · rw [h.fault?_eq hvalid]

end Message

namespace Frame

/-- A query that does not name its sender. -/
def nameless : Message where
  channel := "c"
  sender := ""
  targets := [.all]
  content := []
  query := true
  correlation := some (.fresh 1)

/-- The response of a node to it. -/
def misdirected : Message := nameless.responseFor "b" [120]

/-- The query is read from its frame, so it is answered, and the response is short enough to be
sent; it breaks the rules, and the receiver refuses it. -/
theorem misdirected_refused :
    Message.Obtained misdirected ∧ ¬ misdirected.Valid ∧
      decode (Frame.message nameless).encode = .ok (.message nameless) ∧
      (Stream.wrap? (Frame.message misdirected).encode).isSome ∧
      decode (Frame.message misdirected).encode = .error (.invalid (.missingValue .node)) := by
  have hread : decode (Frame.message nameless).encode = .ok (.message nameless) := by
    have hfits : (Frame.message nameless).Fits := by decide +kernel
    exact (decode_encode_iff hfits).2 (by decide : nameless.Valid)
  have hfits : (Frame.message misdirected).Fits := by decide +kernel
  exact ⟨.response "b" [120] (.read hread), by decide, hread, by decide +kernel,
    decode_message hfits⟩

end Frame

namespace Message

/-- A message that names its sender. -/
def named : Message := ⟨"c", "a", [.all], [], false, none⟩

/-- The response to the query made of it is read as it was sent. -/
theorem directed_accepted :
    let response := (named.intoQuery (.fresh 1)).responseFor "b" [120]
    Obtained response ∧
      Frame.decode (Frame.message response).encode = .ok (.message response) := by
  intro response
  have hnamed : Obtained named := .built (by decide : new? "c" "a" [.all] [] = .ok named)
  have hresponse : Obtained response := .response "b" [120] (.query (.fresh 1) hnamed)
  obtain ⟨b, hb⟩ := Option.isSome_iff_exists.1
    (by decide +kernel : (Stream.wrap? (Frame.message response).encode).isSome)
  exact ⟨hresponse, (hresponse.accepted_iff.2.2.2.2 b hb).trans (if_pos (by decide))⟩

end Message

end Fleet

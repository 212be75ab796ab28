import Fleet.Proofs.Wire.RoundTrip

/-!
# Bytes that are cut short

The bytes of a frame say themselves how far they go: a length field, the header that it declares,
another length field, and the content that this one declares. Bytes that end within one of these
parts are refused, with the length of the part and what there is of it, before anything is read of
the header. So a frame that was cut anywhere is never taken for another one, and what comes after
the content is never looked at.

## Main definitions

* `Frame.declared` — the length that stands at a place.
* `Frame.parts`, `Frame.needed` — the parts that bytes declare, and how far these go.
* `Frame.missing?` — the first part that is not there as a whole.
* `Frame.ofChunks` — what a header and a content are read as.

## Main statements

* `Frame.decode_eq` — what is read, by the part that is missing.
* `Frame.declared_of_prefix`, `Frame.needed_of_prefix` — bytes that are not cut short declare what
  any longer ones declare.
* `Frame.truncated_iff_short` — when bytes are refused as cut short, and that strict prefixes of a
  frame are.
-/

namespace Fleet.Frame

/-- The number that the four bytes at a place show, the most significant one first. If some of them
are not there, nothing depends on it. -/
def declared (b : Bytes) (start : Nat) : Nat :=
  ((b.drop start).take 4).foldl (fun n byte => n * 0x100 + byte.toNat) 0

/-- A part of a frame: where it starts, and how many bytes it has. -/
structure Part where
  start : Nat
  size : Nat
deriving DecidableEq

/-- The bytes go to the end of the part. -/
def Part.Within (p : Part) (b : Bytes) : Prop := p.start + p.size ≤ b.length

instance (p : Part) (b : Bytes) : Decidable (p.Within b) :=
  inferInstanceAs (Decidable (p.start + p.size ≤ b.length))

/-- Where the content starts. -/
def contentStart (b : Bytes) : Nat := 4 + declared b 0 + 4

/-- The two length fields and the two chunks, one after the other. -/
def parts (b : Bytes) : List Part :=
  [⟨0, 4⟩, ⟨4, declared b 0⟩, ⟨4 + declared b 0, 4⟩,
    ⟨contentStart b, declared b (4 + declared b 0)⟩]

/-- How many bytes the two chunks and their length fields have. -/
def needed (b : Bytes) : Nat := contentStart b + declared b (4 + declared b 0)

/-- The first part that is not there as a whole. -/
def missing? (b : Bytes) : Option Part := (parts b).find? fun p => ¬ p.Within b

/-- The first chunk. -/
def headerChunk (b : Bytes) : Bytes := (b.drop 4).take (declared b 0)

/-- The second chunk. -/
def contentChunk (b : Bytes) : Bytes :=
  (b.drop (contentStart b)).take (declared b (4 + declared b 0))

/-- What a header and a content are read as. -/
def ofChunks (header content : Bytes) : Except FrameError Frame :=
  readHeader header >>= ofHeader content

variable {b b' : Bytes}

/-! ### What a frame is read from -/

theorem declared_drop (start : Nat) : declared (b.drop start) 0 = declared b start := by
  simp [declared]

/-- A chunk comes off the front if its length field and the bytes that it declares are there. -/
theorem takeChunk_eq (b : Bytes) :
    takeChunk b =
      if b.length < 4 then .error (.truncated 4 b.length)
      else if b.length < 4 + declared b 0 then .error (.truncated (declared b 0) (b.length - 4))
      else .ok ((b.drop 4).take (declared b 0), b.drop (4 + declared b 0)) := by
  match b with
  | [] | [_] | [_, _] | [_, _, _] => rfl
  | x :: y :: z :: w :: rest =>
    have hlength : declared (x :: y :: z :: w :: rest) 0 = lengthOf x y z w := by
      simp [declared, lengthOf]
    have hfield : ¬ (x :: y :: z :: w :: rest).length < 4 := by simp
    have hshort : (x :: y :: z :: w :: rest).length < 4 + lengthOf x y z w ↔
        rest.length < lengthOf x y z w := by
      simp only [List.length_cons]
      omega
    rw [takeChunk, hlength, if_neg hfield, Nat.add_comm 4]
    simp only [Nat.add_comm 4] at hshort
    simp only [hshort]
    split <;> simp

/-- The second chunk is looked for behind the first one. -/
theorem takeChunk_drop {start : Nat} (hstart : start ≤ b.length) :
    takeChunk (b.drop start) =
      if b.length < start + 4 then .error (.truncated 4 (b.length - start))
      else if b.length < start + 4 + declared b start then
        .error (.truncated (declared b start) (b.length - (start + 4)))
      else .ok ((b.drop (start + 4)).take (declared b start),
        b.drop (start + 4 + declared b start)) := by
  have hfield : b.length - start < 4 ↔ b.length < start + 4 := by omega
  have hchunk : b.length - start < 4 + declared b start ↔
      b.length < start + 4 + declared b start := by omega
  rw [takeChunk_eq, declared_drop, List.length_drop, List.drop_drop, List.drop_drop,
    Nat.sub_sub, ← Nat.add_assoc]
  simp only [hfield, hchunk]

theorem missing?_eq (b : Bytes) :
    missing? b =
      if b.length < 4 then some ⟨0, 4⟩
      else if b.length < 4 + declared b 0 then some ⟨4, declared b 0⟩
      else if b.length < contentStart b then some ⟨4 + declared b 0, 4⟩
      else if b.length < contentStart b + declared b (4 + declared b 0) then
        some ⟨contentStart b, declared b (4 + declared b 0)⟩
      else none := by
  simp only [missing?, parts, contentStart, List.find?_cons, Part.Within, Nat.not_le,
    List.find?_nil]
  grind

/-- Bytes are read as what their chunks make; if a part is missing, they are refused for the first
one that is. -/
theorem decode_eq (b : Bytes) :
    decode b =
      match missing? b with
      | some part => .error (.truncated part.size (b.length - part.start))
      | none => ofChunks (headerChunk b) (contentChunk b) := by
  rw [missing?_eq, decode, takeChunk_eq]
  by_cases hfield : b.length < 4
  · simp only [hfield, if_true]
    rfl
  by_cases hheader : b.length < 4 + declared b 0
  · simp only [hfield, hheader, if_false, if_true]
    rfl
  simp only [hfield, hheader, if_false]
  change (takeChunk (b.drop (4 + declared b 0)) >>= fun p => _) = _
  rw [takeChunk_drop (by omega), ← contentStart]
  by_cases hsecond : b.length < contentStart b
  · simp only [hsecond, if_true]
    rfl
  by_cases hcontent : b.length < contentStart b + declared b (4 + declared b 0)
  · simp only [hsecond, hcontent, if_false, if_true]
    rfl
  · simp only [hsecond, hcontent, if_false]
    rfl

theorem missing?_eq_none_iff : missing? b = none ↔ needed b ≤ b.length := by
  rw [missing?_eq, needed, contentStart]
  grind

theorem start_le_of_missing? {part : Part} (h : missing? b = some part) :
    part.start ≤ b.length := by
  rw [missing?_eq, contentStart] at h
  grind

theorem ofChunks_ne_truncated (header content : Bytes) (expected available : Nat) :
    ofChunks header content ≠ .error (.truncated expected available) := by
  intro h
  rw [ofChunks, readHeader] at h
  cases hread : (Json.read? header).bind Header.ofJson? with
  | none => simp [hread, bind, Except.bind] at h
  | some fields =>
    cases fields with
    | hello node => simp [hread, bind, Except.bind, ofHeader] at h
    | message channel sender targets query correlation =>
      simp only [hread, bind, Except.bind, ofHeader] at h
      split at h <;> simp at h

/-! ### Prefixes of a frame -/

/-- A length field that is there as a whole stays the same if more bytes follow. -/
theorem declared_of_prefix {start : Nat} (hcut : b <+: b') (hfield : start + 4 ≤ b.length) :
    declared b' start = declared b start := by
  obtain ⟨more, rfl⟩ := hcut
  have hdrop : (b ++ more).drop start = b.drop start ++ more :=
    List.drop_append_of_le_length (by omega)
  rw [declared, declared, hdrop, List.take_append_of_le_length (by rw [List.length_drop]; omega)]

/-- Bytes that are not cut short declare the same parts as any longer ones. -/
theorem needed_of_prefix (hcut : b <+: b') (hneeded : needed b ≤ b.length) :
    needed b' = needed b := by
  rw [needed, contentStart] at hneeded
  have hheader : declared b' 0 = declared b 0 := declared_of_prefix hcut (by omega)
  have hcontent : declared b' (4 + declared b 0) = declared b (4 + declared b 0) :=
    declared_of_prefix hcut (by omega)
  rw [needed, needed, contentStart, contentStart, hheader, hcontent]

/-- A length that fits into its four bytes is the one that they declare. -/
theorem declared_chunk {chunked : Bytes} (hfits : chunked.length < lengthBound)
    (before rest : Bytes) :
    declared (before ++ (chunk chunked ++ rest)) before.length = chunked.length := by
  obtain ⟨x, y, z, w, hbytes, hlength⟩ := lengthOf_lengthBytes hfits
  simpa [declared, chunk, hbytes, lengthOf] using hlength

theorem length_chunk (chunked : Bytes) : (chunk chunked).length = 4 + chunked.length := by
  rw [chunk, List.length_append]
  rfl

/-- A frame needs exactly its bytes. -/
theorem needed_encode {f : Frame} (hfits : f.Fits) : needed f.encode = f.encode.length := by
  have hheader : declared f.encode 0 = f.headerBytes.length := declared_chunk hfits.1 [] _
  have hcontent : declared f.encode (4 + f.headerBytes.length) = f.content.length := by
    have h := declared_chunk hfits.2 (chunk f.headerBytes) []
    rwa [length_chunk, List.append_nil] at h
  have hlength : f.encode.length = 4 + f.headerBytes.length + (4 + f.content.length) := by
    rw [encode, List.length_append, length_chunk, length_chunk]
  rw [needed, contentStart, hheader, hcontent, hlength]
  omega

/-- Whatever is cut off the end of a frame, the rest is shorter than it says. -/
theorem length_lt_needed {f : Frame} (hfits : f.Fits) (hcut : b <+: f.encode)
    (hne : b ≠ f.encode) : b.length < needed b := by
  have hlt : b.length < f.encode.length :=
    Nat.lt_of_le_of_ne hcut.length_le fun heq => hne (hcut.eq_of_length heq)
  by_contra hle
  have heq := needed_of_prefix hcut (not_lt.1 hle)
  rw [needed_encode hfits] at heq
  omega

/-! ### When bytes are refused as cut short -/

theorem decode_eq_truncated_iff {expected available : Nat} :
    decode b = .error (.truncated expected available) ↔
      ∃ part, missing? b = some part ∧ part.size = expected ∧
        part.start + available = b.length := by
  rw [decode_eq]
  cases hmissing : missing? b with
  | none => simp [ofChunks_ne_truncated]
  | some part =>
    have hstart := start_le_of_missing? hmissing
    simp only [Except.error.injEq, FrameError.truncated.injEq, Option.some.injEq,
      exists_eq_left']
    omega

theorem exists_decode_eq_truncated_iff :
    (∃ expected available, decode b = .error (.truncated expected available)) ↔
      b.length < needed b := by
  rw [← not_le, ← missing?_eq_none_iff, decode_eq]
  cases missing? b <;> simp [ofChunks_ne_truncated]

/-- Every strict prefix of a frame whose lengths fit is refused as cut short. Of all bytes those are
refused so that are shorter than their two chunks and the length fields need, with the size of the
first part that is not there as a whole and with what there is of it; of all others nothing but the
two chunks is read. -/
theorem truncated_iff_short :
    (∀ f : Frame, f.Fits → ∀ b, b <+: f.encode → b ≠ f.encode →
      ∃ expected available, decode b = .error (.truncated expected available)) ∧
    ∀ b : Bytes,
      ((∃ expected available, decode b = .error (.truncated expected available)) ↔
        b.length < needed b) ∧
      (∀ expected available, decode b = .error (.truncated expected available) ↔
        ∃ part, missing? b = some part ∧ part.size = expected ∧
          part.start + available = b.length) ∧
      (needed b ≤ b.length → decode b = ofChunks (headerChunk b) (contentChunk b)) := by
  refine ⟨fun f hfits b hcut hne => ?_, fun b => ⟨?_, fun _ _ => ?_, fun hneeded => ?_⟩⟩
  · exact exists_decode_eq_truncated_iff.2 (length_lt_needed hfits hcut hne)
  · exact exists_decode_eq_truncated_iff
  · exact decode_eq_truncated_iff
  · rw [decode_eq, missing?_eq_none_iff.2 hneeded]

/-- The bytes of a query that end within its header. -/
def cutCall : Bytes := (Frame.message call).encode.take 40

/-- The piece of the header is no JSON, and it is not read as any. -/
theorem cutCall_refused :
    (Frame.message call).Fits ∧ cutCall <+: (Frame.message call).encode ∧
      cutCall ≠ (Frame.message call).encode ∧ readHeader (headerChunk cutCall) = .error .header ∧
      (∃ expected available, decode cutCall = .error (.truncated expected available)) ∧
      decode cutCall = .error (.truncated 274 36) := by
  have hfits : (Frame.message call).Fits := by decide +kernel
  have hcut : cutCall <+: (Frame.message call).encode := List.take_prefix ..
  have hne : cutCall ≠ (Frame.message call).encode := by decide +kernel
  have hneeded : missing? cutCall = some ⟨4, 274⟩ := by decide +kernel
  exact ⟨hfits, hcut, hne, by decide +kernel,
    truncated_iff_short.1 _ hfits _ hcut hne,
    ((truncated_iff_short.2 cutCall).2.1 274 36).2 ⟨_, hneeded, rfl, by decide +kernel⟩⟩

end Fleet.Frame

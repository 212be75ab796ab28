/-!
# Bytes and text

A run of bytes is a list, so that readers and writers of the wire formats are ordinary list
functions.  Text travels as UTF-8.

## Main statements

* `ofUtf8?_utf8` — the bytes of a text read back as that text.
-/

namespace Fleet

/-- A run of bytes. -/
abbrev Bytes := List UInt8

namespace Text

/-- The UTF-8 bytes of a text. -/
def utf8 (s : String) : Bytes := s.toByteArray.data.toList

/-- The text with these UTF-8 bytes, if they are well formed. -/
def ofUtf8? (b : Bytes) : Option String := String.fromUTF8? ⟨b.toArray⟩

@[simp] theorem ofUtf8?_utf8 (s : String) : ofUtf8? (utf8 s) = some s := by
  have h : (⟨(utf8 s).toArray⟩ : ByteArray) = s.toByteArray := by simp [utf8]
  rw [ofUtf8?, h, String.fromUTF8?, dif_pos s.isValidUTF8]
  rfl

/-- The bytes of a text that is known to be ASCII, such as a key word of a format. -/
def ascii (s : String) : Bytes := s.toList.map fun c => c.toNat.toUInt8

end Text

end Fleet

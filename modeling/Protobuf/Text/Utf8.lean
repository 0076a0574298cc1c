/-! Text as bytes.  A string field, a JSON document and a map key all travel as UTF-8; this module
holds the passage from text to bytes and the checked passage back.
-/

namespace Protobuf.Text

/-- The UTF-8 bytes of a text. -/
def utf8 (text : String) : List UInt8 :=
  text.toUTF8.data.toList

/-- The text that the bytes spell, if they are well-formed UTF-8. -/
def ofUtf8? (bytes : List UInt8) : Option String :=
  String.fromUTF8? ⟨bytes.toArray⟩

theorem ofUtf8?_utf8 (text : String)
    : ofUtf8? (utf8 text) = some text := by
  have bytes : (⟨(utf8 text).toArray⟩ : ByteArray) = text.toUTF8 := by
    rw [utf8, Array.toArray_toList]
  rw [ofUtf8?, bytes]
  exact dif_pos text.isValidUTF8

end Protobuf.Text

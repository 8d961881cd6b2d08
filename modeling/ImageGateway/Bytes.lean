/-!
# Byte strings

Documents, bodies and file contents are lists of bytes. `Bytes.ofString` writes text as UTF-8 and
`Bytes.toString?` reads it back; every text survives the trip, and no other bytes are read as it
(`toString?_eq_some_iff`).
-/

namespace ImageGateway

/-- A document, a body or the content of a file. -/
abbrev Bytes := List UInt8

namespace Bytes

/-- The UTF-8 form of a list of characters. -/
def ofChars (cs : List Char) : Bytes := cs.flatMap String.utf8EncodeChar

/-- The UTF-8 form of a text. -/
def ofString (s : String) : Bytes := ofChars s.toList

/-- The text that the bytes spell in UTF-8, if they are well formed. -/
def toString? (bs : Bytes) : Option String := String.fromUTF8? bs.toByteArray

@[simp] theorem ofChars_nil : ofChars [] = [] := rfl

@[simp] theorem ofChars_cons (c : Char) (cs : List Char) :
    ofChars (c :: cs) = String.utf8EncodeChar c ++ ofChars cs := rfl

@[simp] theorem ofChars_append (cs ds : List Char) :
    ofChars (cs ++ ds) = ofChars cs ++ ofChars ds := by
  simp [ofChars]

theorem toByteArray_ofString (s : String) : (ofString s).toByteArray = s.toByteArray := by
  have h : s.toList.utf8Encode = s.toByteArray := String.utf8Encode_toList
  simpa [ofString, ofChars, List.utf8Encode] using h

/-- Text written as UTF-8 reads back as itself. -/
theorem toString?_ofString (s : String) : toString? (ofString s) = some s := by
  simp only [toString?, toByteArray_ofString, String.fromUTF8?, dif_pos s.isValidUTF8]
  rfl

/-- Bytes that are read as a text are its UTF-8 form. -/
theorem ofString_of_toString? {bs : Bytes} {text : String} (h : toString? bs = some text) :
    ofString text = bs := by
  rw [toString?, String.fromUTF8?] at h
  split at h
  · have same : (ofString text).toByteArray = bs.toByteArray := by
      rw [toByteArray_ofString, ← Option.some.inj h]
      rfl
    exact List.toByteArray_inj.mp same
  · exact absurd h (by simp)

theorem toString?_eq_some_iff {bs : Bytes} {text : String} :
    toString? bs = some text ↔ bs = ofString text :=
  ⟨fun h => (ofString_of_toString? h).symm, fun same => same ▸ toString?_ofString text⟩

/-- The ASCII digits. -/
def isDigit (b : UInt8) : Bool := 48 ≤ b && b ≤ 57

end Bytes

end ImageGateway

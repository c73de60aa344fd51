import IACore.Library.Escaping
import IACore.Text

/-!
# `XML::escape_xml_string`

The escaping of a text for XML, and `serialize_to_string`, which may apply it to what pugixml prints
for a node or a document.
-/

namespace IACore

namespace XML

/-- One turn of the loop of `escape_xml_string`. -/
def escapeTurn (buffer : Text) (c : UInt8) : Text :=
  if c = '&'.toUInt8 then buffer ++ text "&amp;"
  else if c = '"'.toUInt8 then buffer ++ text "&quot;"
  else if c = '\''.toUInt8 then buffer ++ text "&apos;"
  else if c = '<'.toUInt8 then buffer ++ text "&lt;"
  else if c = '>'.toUInt8 then buffer ++ text "&gt;"
  else buffer ++ [c]

/-- `escape_xml_string`. -/
def escapeXmlString (xml : Text) : Text := xml.foldl escapeTurn []

/-- `serialize_to_string` of a node or a document, for what `print` or `save` writes for it. -/
def serializeToString {ν : Type} (print : ν → Text) (node : ν) (escape : Bool) : Text :=
  if escape then escapeXmlString (print node) else print node

/-! ### The predefined entities -/

/-- The five entities that XML predefines. -/
def predefined : Escaping UInt8 where
  mark := '&'.toUInt8
  entities := [('&'.toUInt8, text "&amp;"), ('"'.toUInt8, text "&quot;"),
    ('\''.toUInt8, text "&apos;"), ('<'.toUInt8, text "&lt;"), ('>'.toUInt8, text "&gt;")]
  head_eq := by decide
  mark_notMem := by decide
  prefixFree := by decide
  mark_mem := by decide

/-- A text is safe if what escapes it has none of the four characters and no `&` but in front of an
entity, and is read back, from left to right, as the text itself. -/
structure SafelyEscaped (xml : Text) : Prop where
  notMem : ∀ c ∈ ['<', '>', '"', '\''], c.toUInt8 ∉ escapeXmlString xml
  entity : ∀ before after, escapeXmlString xml = before ++ '&'.toUInt8 :: after →
    ∃ e ∈ predefined.entities, e.2 <+: '&'.toUInt8 :: after
  unescape_eq : predefined.unescape (escapeXmlString xml) = xml

end XML

end IACore

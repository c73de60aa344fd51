import IACore.XML

/-!
# The XML escaping is reversible

The loop of `escape_xml_string` is the escaping by the predefined entities (`escapeXmlString_eq`),
which begin with `&` and are a prefix code; so it is safe and reversible (`escapeXmlString_safe`),
and a serialization is not lost when it is escaped (`unescape_serializeToString`).
-/

namespace IACore

namespace XML

theorem escapeTurn_eq (buffer : Text) (c : UInt8) :
    escapeTurn buffer c = buffer ++ predefined.escape c := by
  unfold escapeTurn
  split_ifs with hamp hquot hapos hlt hgt
  · rw [hamp]
    rfl
  · rw [hquot]
    rfl
  · rw [hapos]
    rfl
  · rw [hlt]
    rfl
  · rw [hgt]
    rfl
  · rcases predefined.escape_cases c with ⟨e, he, rfl, -⟩ | ⟨-, -, hescape⟩
    · simp only [predefined, List.mem_cons, List.not_mem_nil, or_false] at he
      rcases he with rfl | rfl | rfl | rfl | rfl
      · exact absurd rfl hamp
      · exact absurd rfl hquot
      · exact absurd rfl hapos
      · exact absurd rfl hlt
      · exact absurd rfl hgt
    · rw [hescape]

/-- The loop appends the escaping of the characters, one after the other. -/
theorem escapeXmlString_eq (xml : Text) : escapeXmlString xml = predefined.escapeAll xml := by
  have hloop : ∀ buffer, xml.foldl escapeTurn buffer = buffer ++ predefined.escapeAll xml := by
    induction xml with
    | nil =>
      intro buffer
      exact (List.append_nil buffer).symm
    | cons c xml ih =>
      intro buffer
      rw [List.foldl_cons, ih, escapeTurn_eq, List.append_assoc]
      rfl
  exact hloop []

/-- **Escaping is safe and reversible**, also for texts with entities in them, and so no two texts
are escaped alike. -/
theorem escapeXmlString_safe :
    (∀ xml, SafelyEscaped xml) ∧ Function.Injective escapeXmlString := by
  constructor
  · intro xml
    refine ⟨?_, ?_, ?_⟩
    · intro c hc
      have hreplaced : c.toUInt8 ∈ predefined.entities.map Prod.fst ∧
          ∀ e ∈ predefined.entities, c.toUInt8 ∉ e.2 := by
        simp only [List.mem_cons, List.not_mem_nil, or_false] at hc
        rcases hc with rfl | rfl | rfl | rfl <;> decide
      rw [escapeXmlString_eq]
      exact Escaping.notMem_escapeAll hreplaced.1 hreplaced.2 xml
    · intro before after h
      rw [escapeXmlString_eq] at h
      exact Escaping.exists_entity h
    · rw [escapeXmlString_eq]
      exact predefined.unescape_escapeAll xml
  · rw [funext escapeXmlString_eq]
    exact predefined.escapeAll_injective

/-- An escaped serialization stands for the one that is not. -/
theorem unescape_serializeToString {ν : Type} (print : ν → Text) (node : ν) :
    predefined.unescape (serializeToString print node true) =
      serializeToString print node false := by
  show predefined.unescape (escapeXmlString (print node)) = print node
  rw [escapeXmlString_eq, Escaping.unescape_escapeAll]

example : escapeXmlString (text "<a b='&lt;'>") = text "&lt;a b=&apos;&amp;lt;&apos;&gt;" := by
  decide

end XML

end IACore

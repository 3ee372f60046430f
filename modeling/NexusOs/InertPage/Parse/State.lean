import NexusOs.InertPage.Spacing

/-!
# What a part of the parse does to the parser

A part that was read leaves the open elements, counts its elements and enters its ids
(`Parser.after`). The caps and the id set have room for a part (`Parser.Room`) exactly if they have
room for its parts one after another, and for an element if they have room for its content inside.
-/

namespace NexusOs.InertPage

open Utf8 List

namespace Parser

variable {s : Parser} {a b e : Extent} {rest rest' rest'' : Text} {tag : Tag} {attrs : Attrs}

/-- The parser after a part of this extent, at `rest`. -/
def after (s : Parser) (rest : Text) (e : Extent) : Parser :=
  { s with rest, elements := s.elements + e.elements, ids := s.ids ++ e.ids }

/-- The parser inside an element, after its start tag. -/
def inside (s : Parser) (tag : Tag) (attrs : Attrs) (rest : Text) : Parser :=
  { s with
    rest
    openTags := tag :: s.openTags
    elements := s.elements + 1
    ids := s.ids ++ attrs.id.toList }

/-- The parser after an end tag. -/
def left (s : Parser) (rest : Text) : Parser := { s with rest, openTags := s.openTags.tail }

theorem after_none : s.after rest .none = { s with rest } := by simp [after, Extent.none]

@[simp] theorem after_after : (s.after rest a).after rest' b = s.after rest' (a.append b) := by
  simp [after, Extent.append, Nat.add_assoc]

theorem left_after_inside :
    ((s.inside tag attrs rest).after rest' e).left rest'' = s.after rest'' (.element attrs e) := by
  simp [after, inside, left, Extent.element, Nat.add_assoc, Nat.add_comm 1]

/-- The caps and the id set have room for a part. -/
structure Room (s : Parser) (e : Extent) : Prop where
  elements : s.elements + e.elements ≤ POLICY_V1.maxElements
  depth : s.openTags.length + e.depth ≤ POLICY_V1.maxDepth
  unique : (s.ids ++ e.ids).Nodup
  ids : ∀ id ∈ e.ids, IdForm id

theorem room_append : s.Room (a.append b) ↔ s.Room a ∧ (s.after rest a).Room b := by
  constructor
  · rintro ⟨helements, hdepth, hunique, hids⟩
    simp only [Extent.append] at helements hdepth hunique hids
    refine ⟨⟨by omega, by omega, ?_, fun id hid => hids id (by simp [hid])⟩,
      ⟨?_, ?_, ?_, fun id hid => hids id (by simp [hid])⟩⟩
    · rw [← append_assoc] at hunique
      exact (nodup_append.mp hunique).1
    · simp only [after]
      omega
    · simp only [after]
      omega
    · simpa [after] using hunique
  · rintro ⟨⟨helements, hdepth, hunique, hids⟩, helements', hdepth', hunique', hids'⟩
    simp only [after] at helements' hdepth' hunique'
    refine ⟨?_, ?_, by simpa [Extent.append] using hunique', ?_⟩
    · simp only [Extent.append]
      omega
    · simp only [Extent.append]
      omega
    intro id hid
    rcases mem_append.mp hid with hid | hid
    · exact hids id hid
    · exact hids' id hid

theorem room_element :
    s.Room (.element attrs e) ↔ (s.inside tag attrs rest).Room e ∧ ∀ id ∈ attrs.id, IdForm id := by
  constructor
  · rintro ⟨helements, hdepth, hunique, hids⟩
    simp only [Extent.element] at helements hdepth hunique hids
    refine ⟨⟨?_, ?_, by simpa [inside] using hunique, fun id hid => hids id (by simp [hid])⟩, ?_⟩
    · simp only [inside]
      omega
    · simp only [inside, length_cons]
      omega
    · intro id hid
      exact hids id (by simp [Option.mem_def.mp hid])
  · rintro ⟨⟨helements, hdepth, hunique, hids⟩, hid⟩
    simp only [inside, length_cons] at helements hdepth hunique
    refine ⟨?_, ?_, by simpa [Extent.element] using hunique, ?_⟩
    · simp only [Extent.element]
      omega
    · simp only [Extent.element]
      omega
    intro id hmem
    rcases mem_append.mp hmem with hmem | hmem
    · exact hid id (by simpa using hmem)
    · exact hids id hmem

end Parser

end NexusOs.InertPage

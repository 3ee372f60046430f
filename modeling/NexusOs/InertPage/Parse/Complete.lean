import NexusOs.InertPage.Parse.State
import NexusOs.InertPage.Render

/-!
# The parse of canonical text

From the canonical text of a tree that obeys the grammar, every part of the parser reads that
tree, as long as there is room for it.
-/

namespace NexusOs.InertPage

open Utf8 Fallible POLICY_V1 List Parser

variable {page : Page}

namespace Parser

variable {s : Parser} {k : Text}

/-! ## Tokens -/

variable {flow : Flow} {fuel : Nat} {id value text name lang : Text} {attrs attrs' : Attrs}
  {ids : List Text} {tag t container : Tag} {e : Extent} {content : Inlines} {s' : Parser}
  {α : Type} {items : List MainItem} {b : Block} {sections : Bool} {m : Main} (title : Bool)

/-- What follows a name does not go on with it. -/
def EndsName (k : Text) : Prop := ∀ c, k.head? = some c → c.isAlphanum = false

theorem nameAt_append (tag : Tag) (hk : EndsName k) : nameAt (tag.name ++ k) = .tag tag := by
  have hname : ∀ c ∈ tag.name, c.isAlphanum = true := by
    have hall : tag.name.all Char.isAlphanum = true := by cases tag <;> decide
    exact all_eq_true.mp hall
  have htake : (tag.name ++ k).takeWhile Char.isAlphanum = tag.name := by
    rw [takeWhile_append_of_pos hname]
    cases k with
    | nil => simp
    | cons c k => simp [hk c rfl]
  have hfind : bodyTags.find? (fun t => t.name = tag.name) = some tag := by cases tag <;> decide
  simp only [nameAt, htake, hfind]

theorem name_eq_cons (tag : Tag) : ∃ c rest, tag.name = c :: rest ∧ c.isAlpha = true := by
  cases tag <;> exact ⟨_, _, rfl, by decide⟩

theorem endsName_render (attrs : Attrs) (k : Text) : EndsName (attrs.render ++ ">" ++ k) := by
  intro c hc
  have hcases : c = ' ' ∨ c = '>' := by
    rcases attrs with ⟨_ | cls, _ | id⟩ <;>
      simp [Attrs.render, attributeText] at hc <;> simp [← hc]
  rcases hcases with rfl | rfl <;> decide

theorem peek_startText (tag : Tag) (attrs : Attrs) (h : s.rest = startText tag attrs ++ k) :
    s.peek = .start (.tag tag) := by
  obtain ⟨c, rest, hname, hc⟩ := name_eq_cons tag
  have hat := nameAt_append tag (endsName_render attrs k)
  have hne : c ≠ '/' := by
    rintro rfl
    exact absurd hc (by decide)
  rw [hname] at hat
  have hrest : s.rest = '<' :: c :: (rest ++ (attrs.render ++ ">" ++ k)) := by
    simp [h, startText, hname]
  simp only [peek, hrest]
  split
  · rename_i heq
    cases heq
  · rename_i heq
    exact absurd (List.cons.inj (List.cons.inj heq).2).1 hne
  · rename_i heq
    obtain ⟨rfl, rfl⟩ := List.cons.inj (List.cons.inj heq).2
    simpa [hc] using hat
  · rename_i hno
    exact absurd rfl (hno _ _)

theorem peek_endText (tag : Tag) (h : s.rest = endText tag ++ k) : s.peek = .stop (.tag tag) := by
  obtain ⟨c, rest, hname, hc⟩ := name_eq_cons tag
  have hends : EndsName (">" ++ k) := by
    intro c hc
    cases hc
    decide
  have hat := nameAt_append tag hends
  rw [hname] at hat
  have hrest : s.rest = '<' :: '/' :: c :: (rest ++ (">" ++ k)) := by simp [h, endText, hname]
  simp only [peek, hrest, hc]
  rw [← hat]
  rfl

theorem agreeing_append (lit k : Text) : agreeing lit (lit ++ k) = lit := by
  induction lit with
  | nil => cases k <;> rfl
  | cons c lit ih => simp [agreeing, ih]

theorem fixed_append (lit : Text) (code : RefusalCode) (h : s.rest = lit ++ k) :
    fixed lit code s = .ok ((), s.after k .none) := by
  rw [fixed, run_get_bind, h, agreeing_append, if_neg (Nat.lt_irrefl _), run_set, after_none,
    drop_left]

theorem optionalLf_append (h : s.rest = "\n" ++ k) : optionalLf s = .ok ((), s.after k .none) := by
  rw [optionalLf, run_get_bind, h, after_none]
  rfl

/-- There is fuel for one more round. -/
theorem exists_succ {n : Nat} (h : n < fuel) : ∃ rounds, fuel = rounds + 1 :=
  Nat.exists_eq_succ_of_ne_zero (Nat.ne_zero_of_lt h)

/-! ## Text -/

/-- The entity of a character is found at its place. -/
theorem find_entity {c : Char} {entity : Text} (h : (c, entity) ∈ entities) (k : Text) :
    (∃ rest, entity = '&' :: rest) ∧
      entities.find? (fun e => e.2.isPrefixOf (entity ++ k)) = some (c, entity) := by
  simp only [entities, mem_cons, not_mem_nil, or_false] at h
  rcases h with ⟨rfl, rfl⟩ | ⟨rfl, rfl⟩ | ⟨rfl, rfl⟩ | ⟨rfl, rfl⟩ | ⟨rfl, rfl⟩ <;>
    exact ⟨⟨_, rfl⟩, by simp [entities]⟩

theorem nextChar_append (c : Char) (h : s.rest = escapeChar c ++ k) :
    s.nextChar title = .ok (c, k) := by
  rcases escapeChar_cases c with ⟨entity, hmem, hescape⟩ | ⟨⟨hamp, -, hgt⟩, hescape⟩
  · obtain ⟨⟨rest, hcons⟩, hfind⟩ := find_entity hmem k
    rw [hescape] at h
    have hrest : s.rest = '&' :: (rest ++ k) := by rw [h, hcons, cons_append]
    rw [← h] at hfind
    simp only [nextChar]
    rw [hrest] at hfind ⊢
    simp only [if_true, hfind]
    rw [← hrest, h, drop_left]
  · rw [hescape] at h
    simp [nextChar, h, hamp, hgt]

theorem escapeChar_head (c : Char) (k : Text) :
    ∃ d rest, escapeChar c ++ k = d :: rest ∧ d ≠ '<' := by
  rcases escapeChar_cases c with ⟨entity, hmem, hescape⟩ | ⟨⟨-, hlt, -⟩, hescape⟩
  · obtain ⟨⟨rest, hcons⟩, -⟩ := find_entity hmem k
    exact ⟨'&', rest ++ k, by rw [hescape, hcons, cons_append], by decide⟩
  · exact ⟨c, k, by rw [hescape, singleton_append], hlt⟩

/-- Escaped text before a tag is read through the flow as what it escapes. -/
theorem textRun_append {before : Text} (h : s.rest = escape text ++ k) (hk : k.head? = some '<')
    (hfuel : text.length < fuel) (hflow : flow.After before) (hbegun : Begun (before ++ text))
    (hchars : title = true → flow.chars + text.length ≤ maxTitleChars) :
    ∃ flow', textRun title fuel flow s = .ok ((text, flow'), s.after k .none) ∧
      flow'.After (before ++ text) ∧ flow'.chars = flow.chars + text.length := by
  induction text generalizing s before flow fuel with
  | nil =>
    obtain ⟨fuel, rfl⟩ := exists_succ hfuel
    refine ⟨flow, ?_, by simpa using hflow, by simp⟩
    have hrest : s.rest = k := by simpa [escape] using h
    rw [textRun, run_get_bind, if_pos (by simp [hrest, hk]), run_pure, after_none, ← hrest]
  | cons c text ih =>
    obtain ⟨fuel, rfl⟩ := exists_succ hfuel
    have hrest : s.rest = escapeChar c ++ (escape text ++ k) := by simpa [escape] using h
    obtain ⟨d, rest, hcons, hd⟩ := escapeChar_head c (escape text ++ k)
    rw [← hrest] at hcons
    have hstep : Begun ((before ++ [c]) ++ text) := by simpa using hbegun
    obtain ⟨flow₁, hchar, hafter, hcount⟩ := hflow.takes_char hstep.of_append s.pos
    have hcap : title = true → flow₁.chars + text.length ≤ maxTitleChars := by
      intro htitle
      have := hchars htitle
      simp only [length_cons] at this
      omega
    have hfuel : text.length < fuel := by simpa using hfuel
    obtain ⟨flow', hrun, hafter', hcount'⟩ := ih (s := s.after (escape text ++ k) .none)
      rfl hfuel hafter hstep hcap
    refine ⟨flow', ?_, by simpa using hafter', by simp only [length_cons]; omega⟩
    have htitle : ¬((title && decide (flow₁.chars > maxTitleChars)) = true) := by
      cases title with
      | false => simp
      | true =>
        have := hcap rfl
        simp
        omega
    rw [textRun, run_get_bind, if_neg (by simp [hcons, hd]),
      run_lift_bind_of_ok (nextChar_append title c hrest)]
    dsimp only
    rw [run_set_bind, run_lift_bind_of_ok hchar, if_neg htitle, ← after_none,
      run_bind_of_ok hrun, after_after]
    rfl

/-! ## Tags -/

theorem idOk_of_idForm (h : IdForm id) : idOk id = true := by
  obtain ⟨first, rest, rfl, hfirst, hlength, hrest⟩ := h
  simp only [idOk, hfirst, Bool.and_eq_true, decide_eq_true_eq, all_eq_true, Bool.or_eq_true]
  exact ⟨by simpa using hlength, fun c hc => or_assoc.mpr (hrest c hc)⟩

theorem quote_not_mem_idForm (h : IdForm id) : '"' ∉ id := by
  obtain ⟨first, rest, rfl, hfirst, -, hrest⟩ := h
  rintro (_ | ⟨_, hmem⟩)
  · exact absurd hfirst (by decide)
  · rcases hrest _ hmem with h | h | h <;> exact absurd h (by decide)

theorem takeWhile_quote (h : '"' ∉ value) (k : Text) :
    (value ++ '"' :: k).takeWhile (fun c => c ≠ '"') = value := by
  have hall : ∀ c ∈ value, decide (c ≠ '"') = true := by
    intro c hc
    have hne : c ≠ '"' := by
      rintro rfl
      exact h hc
    simpa using hne
  rw [takeWhile_append_of_pos hall]
  simp

theorem attributeValue_class (c : Class) (attrs : Attrs) :
    attributeValue className c.name attrs s = .ok ({ attrs with cls := some c }, s) := by
  have hfind : classes.find? (fun d => d.name = c.name) = some c := by cases c <;> decide
  have hvalue : s.classValue c.name = .ok c := by simp only [classValue, hfind]
  rw [attributeValue, if_pos rfl, run_get_bind, run_lift_bind_of_ok hvalue]
  rfl

theorem attributeValue_id (hform : IdForm id) (hfresh : id ∉ s.ids) (attrs : Attrs) :
    attributeValue idName id attrs s =
      .ok ({ attrs with id := some id }, { s with ids := s.ids ++ [id] }) := by
  have hvalue : idValue id s = .ok (⟨⟩, { s with ids := s.ids ++ [id] }) := by
    rw [idValue, run_get_bind, if_neg (by simp [idOk_of_idForm hform]), if_neg hfresh]
    rfl
  rw [attributeValue, if_neg (by decide), run_bind_of_ok hvalue]
  rfl

/-- One attribute is read, if its value is and it was not there before. -/
theorem attributeAt_append (hname : name = className ∧ attrs.cls = none ∨ name = idName ∧
      attrs.id = none)
    (hquote : '"' ∉ value) (h : s.rest = name ++ "=\"" ++ value ++ "\"" ++ k)
    (hvalue : ∀ rest, attributeValue name value attrs { s with rest } =
      .ok (attrs', { s with rest, ids })) :
    attributeAt attrs s = .ok (attrs', { s with rest := k, ids }) := by
  have hrest : s.rest = name ++ ('=' :: '"' :: (value ++ '"' :: k)) := by simp [h]
  have htake : s.rest.takeWhile
      (fun c => decide (c ∉ [' ', '=', '>', '/', '\n', '"', '\''])) = name := by
    rw [hrest]
    rcases hname with ⟨rfl, -⟩ | ⟨rfl, -⟩ <;> rfl
  have hfirst : ¬(name = [] ∨ name = className ∧ attrs.cls.isSome ∨
      name = idName ∧ attrs.id.isSome) := by
    have hnames : className ≠ [] ∧ idName ≠ [] ∧ className ≠ idName := by decide
    rcases hname with ⟨rfl, hnone⟩ | ⟨rfl, hnone⟩
    · simp [hnone, hnames]
    · simp [hnone, hnames, hnames.2.2.symm]
  have hallowed : ¬(name ≠ className ∧ name ≠ idName) := by
    rcases hname with ⟨rfl, -⟩ | ⟨rfl, -⟩ <;> simp
  have hdrop : s.rest.drop name.length = '=' :: '"' :: (value ++ '"' :: k) := by
    rw [hrest, drop_left]
  rw [attributeAt, run_get_bind]
  simp only [htake]
  rw [if_neg hfirst, if_neg hallowed, hdrop, if_neg (by simp [atText]), drop_succ_cons,
    drop_succ_cons, drop_zero, if_neg (by simp), run_set_bind, takeWhile_quote hquote,
    run_bind_of_ok (hvalue _), run_modify_bind, run_pure]
  simp

theorem attributes_step (hname : name = className ∧ attrs.cls = none ∨ name = idName ∧
      attrs.id = none) (hquote : '"' ∉ value) (h : s.rest = attributeText name (some value) ++ k)
    (hvalue : ∀ rest, attributeValue name value attrs { s with rest } =
      .ok (attrs', { s with rest, ids })) :
    attributes (fuel + 1) attrs s = attributes fuel attrs' { s with rest := k, ids } := by
  have hrest : s.rest = ' ' :: (name ++ "=\"" ++ value ++ "\"" ++ k) := by simp [h, attributeText]
  have hat := attributeAt_append (s := { s with
    rest := name ++ "=\"" ++ value ++ "\"" ++ k }) hname hquote rfl hvalue
  rw [attributes, run_get_bind, hrest]
  exact run_bind_of_ok hat

theorem attributes_finish (h : s.rest = ">" ++ k) :
    attributes (fuel + 1) attrs s = .ok (attrs, { s with rest := k }) := by
  rw [attributes, run_get_bind, h]
  rfl

/-- An `id` attribute, if there is one, and the end of a start tag are read. -/
theorem attributes_id {id : Option Text} (hnone : attrs.id = none)
    (h : s.rest = attributeText idName id ++ ">" ++ k)
    (hfuel : (attributeText idName id).length < fuel) (hform : ∀ value ∈ id, IdForm value)
    (hfresh : ∀ value ∈ id, value ∉ s.ids) :
    attributes fuel attrs s =
      .ok ({ attrs with id }, { s with rest := k, ids := s.ids ++ id.toList }) := by
  cases id with
  | none =>
    obtain ⟨fuel, rfl⟩ := exists_succ hfuel
    rw [attributes_finish (by simpa [attributeText] using h)]
    simp [← hnone]
  | some value =>
    have hlength : 2 ≤ (attributeText idName (some value)).length := by
      simp [attributeText]
      omega
    obtain ⟨fuel, rfl⟩ : ∃ n, fuel = n + 2 := ⟨fuel - 2, by omega⟩
    rw [append_assoc] at h
    have hvalue : ∀ rest, attributeValue idName value attrs { s with rest } =
        .ok ({ attrs with id := some value }, { s with rest, ids := s.ids ++ [value] }) :=
      fun rest => attributeValue_id (s := { s with rest }) (hform value rfl)
        (hfresh value rfl) attrs
    rw [attributes_step (.inr ⟨rfl, hnone⟩) (quote_not_mem_idForm (hform value rfl)) h hvalue]
    exact attributes_finish rfl

/-- The attributes of a tag are read through its `>`. -/
theorem attributes_append (h : s.rest = attrs.render ++ ">" ++ k)
    (hfuel : attrs.render.length < fuel) (hform : ∀ id ∈ attrs.id, IdForm id)
    (hfresh : ∀ id ∈ attrs.id, id ∉ s.ids) :
    attributes fuel Attrs.none s =
      .ok (attrs, { s with rest := k, ids := s.ids ++ attrs.id.toList }) := by
  rcases attrs with ⟨_ | cls, id⟩
  · exact attributes_id rfl (by simpa [Attrs.render, attributeText] using h)
      (by simpa [Attrs.render, attributeText] using hfuel) hform hfresh
  obtain ⟨fuel, rfl⟩ := exists_succ hfuel
  have hclass : 1 ≤ (attributeText className (some cls.name)).length := by simp [attributeText]
  have hfuel : (attributeText idName id).length < fuel := by
    simp only [Attrs.render, Option.map_some, length_append] at hfuel
    omega
  have hquote : '"' ∉ cls.name := by cases cls <;> decide
  have hrest : s.rest = attributeText className (some cls.name) ++
      (attributeText idName id ++ ">" ++ k) := by
    simpa [Attrs.render] using h
  have hvalue : ∀ rest, attributeValue className cls.name .none { s with rest } =
      .ok (⟨some cls, none⟩, { s with rest, ids := s.ids }) :=
    fun rest => attributeValue_class cls .none
  rw [attributes_step (.inl ⟨rfl, rfl⟩) hquote hrest hvalue]
  exact attributes_id rfl rfl hfuel hform hfresh

theorem enter_of_room (hroom : s.Room (.element attrs e)) :
    enter tag s =
      .ok (⟨⟩, { s with elements := s.elements + 1, openTags := tag :: s.openTags }) := by
  have helements := hroom.elements
  have hdepth := hroom.depth
  simp only [Extent.element] at helements hdepth
  rw [enter, run_get_bind, if_neg (by omega), if_neg (by omega)]
  rfl

theorem startTag_append (htag : tag ≠ .br) (hroom : s.Room (.element attrs e))
    (h : s.rest = startText tag attrs ++ k) :
    startTag tag s = .ok (attrs, s.inside tag attrs k) := by
  have hform : ∀ id ∈ attrs.id, IdForm id := by
    intro id hid
    exact hroom.ids id (by simp [Extent.element, Option.mem_def.mp hid])
  have hfresh : ∀ id ∈ attrs.id, id ∉ s.ids := by
    intro id hid hmem
    have hunique := hroom.unique
    simp only [Extent.element, Option.mem_def.mp hid] at hunique
    exact (nodup_append.mp hunique).2.2 id hmem id (by simp) rfl
  have hdrop : s.rest.drop (1 + tag.name.length) = attrs.render ++ ">" ++ k := by
    rw [h, startText]
    simp [Nat.add_comm 1]
  rw [startTag, run_bind_of_ok (enter_of_room hroom), run_modify_bind, run_get_bind, if_neg htag]
  rw [hdrop]
  refine attributes_append rfl ?_ hform hfresh
  simp only [length_append]
  omega

theorem startTag_br (hroom : s.Room (.element Attrs.none .none))
    (h : s.rest = startText .br Attrs.none ++ k) :
    startTag .br s = .ok (Attrs.none, s.after k (.element Attrs.none .none)) := by
  rw [startTag, run_bind_of_ok (enter_of_room hroom), run_modify_bind, run_get_bind, h]
  simp only [after, Extent.element, Extent.none, Attrs.none, Option.toList_none, append_nil]
  rfl

theorem endTag_append (h : s.rest = endText tag ++ k) : endTag tag s = .ok ((), s.left k) := by
  have hdrop : s.rest.drop (2 + tag.name.length) = '>' :: k := by
    rw [h, endText]
    simp [Nat.add_comm 2]
  rw [endTag, run_modify_bind]
  rw [hdrop]
  rfl

/-! ## Leaves -/

/-- What follows a start tag is shorter. -/
theorem length_lt_of_startText (h : s.rest = startText tag attrs ++ k) :
    k.length < s.rest.length := by
  simp [h, startText]
  omega

theorem peek_text {d : Char} {rest : Text} (h : s.rest = d :: rest) (hd : d ≠ '<') :
    s.peek = .text := by
  simp only [peek, h]
  split
  · rename_i heq
    cases heq
  · rename_i heq
    exact absurd (List.cons.inj heq).1 hd
  · rename_i heq
    exact absurd (List.cons.inj heq).1 hd
  · rfl

theorem length_le_escape (text : Text) : text.length ≤ (escape text).length := by
  induction text with
  | nil => simp
  | cons c text ih =>
    obtain ⟨d, rest, hcons, -⟩ := escapeChar_head c []
    have hlength : 0 < (escapeChar c).length := by
      rw [append_nil] at hcons
      simp [hcons]
    simp only [escape, flatMap_cons, length_append, length_cons] at ih ⊢
    omega

/-- Content that does not start with a text starts with a tag, or ends there. -/
theorem render_head (h : content.startsWithText = false) (tag : Tag) (k : Text) :
    (content.render ++ (endText tag ++ k)).head? = some '<' := by
  cases content <;> first | rfl | cases h

theorem spanTag?_tag (tag : SpanTag) : spanTag? tag.tag = some tag := by cases tag <;> rfl

theorem nonEmpty_of_ok {loop : Parse (Inlines × Flow)} (h : loop s = .ok ((content, flow), s'))
    (hne : content ≠ .nil) : nonEmpty loop s = .ok ((content, flow), s') := by
  rw [nonEmpty, run_bind_of_ok h]
  dsimp only
  rw [if_neg hne]
  rfl

/-- Inline content is read up to the end tag of its parent. -/
theorem inlinesLoop_append {parent : Tag} {before : Text}
    (h : s.rest = content.render ++ (endText parent ++ k)) (hfuel : s.rest.length < fuel)
    (hroom : s.Room content.extent) (hformed : content.Formed) (hflow : flow.After before)
    (hbegun : Begun (before ++ content.flatten)) :
    ∃ flow', inlinesLoop fuel parent flow s =
        .ok ((content, flow'), s.after (endText parent ++ k) content.extent) ∧
      flow'.After (before ++ content.flatten) := by
  induction content generalizing s parent flow before fuel k with
  | nil =>
    obtain ⟨fuel, rfl⟩ := exists_succ hfuel
    have hrest : s.rest = endText parent ++ k := h
    refine ⟨flow, ?_, by simpa [Inlines.flatten] using hflow⟩
    rw [inlinesLoop, run_get_bind, peek_endText parent hrest]
    dsimp only
    rw [if_pos rfl, run_pure, Inlines.extent, after_none, ← hrest]
  | text t rest ih =>
    obtain ⟨fuel, rfl⟩ := exists_succ hfuel
    obtain ⟨ht, hnext, hrest⟩ := hformed
    have hsplit : s.rest = escape t ++ (rest.render ++ (endText parent ++ k)) := by
      simpa [Inlines.render] using h
    obtain ⟨c, t', rfl⟩ := exists_cons_of_ne_nil ht
    obtain ⟨d, after, hcons, hd⟩ := escapeChar_head c (escape t' ++
      (rest.render ++ (endText parent ++ k)))
    have hhead : s.rest = d :: after := by
      rw [hsplit, ← hcons]
      simp [escape]
    have hlength : (c :: t').length < s.rest.length := by
      have hescape := length_le_escape (c :: t')
      rw [hsplit, length_append, length_append, endText]
      simp at hescape ⊢
      omega
    have hbegun' : Begun ((before ++ c :: t') ++ rest.flatten) := by
      simpa [Inlines.flatten] using hbegun
    obtain ⟨flow₁, hrun, hflow₁, -⟩ := textRun_append false hsplit
      (render_head hnext parent k) hlength hflow hbegun'.of_append (fun h => by cases h)
    have hroom' : (s.after (rest.render ++ (endText parent ++ k)) .none).Room rest.extent := by
      rw [after_none]
      exact ⟨hroom.elements, hroom.depth, hroom.unique, hroom.ids⟩
    have hfuel' : (rest.render ++ (endText parent ++ k)).length < fuel := by
      rw [hsplit, length_append] at hfuel
      have := length_le_escape (c :: t')
      simp only [length_cons] at this
      omega
    obtain ⟨flow', hloop, hflow'⟩ := ih rfl hfuel' hroom' hrest hflow₁ hbegun'
    refine ⟨flow', ?_, by simpa [Inlines.flatten] using hflow'⟩
    rw [inlinesLoop, run_get_bind, peek_text hhead hd]
    dsimp only
    rw [if_neg (by simp [hhead, hd]), run_bind_of_ok hrun]
    rw [run_bind_of_ok hloop]
    simp [run_pure, Inlines.extent, Extent.append, Extent.none]
  | br rest ih =>
    obtain ⟨fuel, rfl⟩ := exists_succ hfuel
    have hsplit : s.rest = startText .br .none ++ (rest.render ++ (endText parent ++ k)) := by
      simpa [Inlines.render] using h
    obtain ⟨hbr, hroom'⟩ := room_append.mp hroom
    have hbegun' : Begun ((before ++ [' ']) ++ rest.flatten) := by
      simpa [Inlines.flatten] using hbegun
    obtain ⟨flow₁, hflowBr, hflow₁⟩ := hflow.takes_br hbegun'.of_append s.pos
    have hfuel' := (length_lt_of_startText hsplit).trans_le (Nat.le_of_lt_succ hfuel)
    obtain ⟨flow', hloop, hflow'⟩ := ih rfl hfuel' hroom' hformed hflow₁ hbegun'
    refine ⟨flow', ?_, by simpa [Inlines.flatten] using hflow'⟩
    rw [inlinesLoop, run_get_bind, peek_startText .br Attrs.none hsplit]
    dsimp only
    rw [if_pos rfl, run_lift_bind_of_ok hflowBr, run_bind_of_ok (startTag_br hbr hsplit),
      run_bind_of_ok hloop, after_after]
    rfl
  | span tag attrs inlines rest ihInner ihRest =>
    obtain ⟨fuel, rfl⟩ := exists_succ hfuel
    obtain ⟨hne, hinner, hrest⟩ := hformed
    have hsplit : s.rest = startText tag.tag attrs ++
        (inlines.render ++ (endText tag.tag ++ (rest.render ++ (endText parent ++ k)))) := by
      simpa [Inlines.render] using h
    have hnotBr : tag.tag ≠ .br := by cases tag <;> decide
    obtain ⟨hspan, hroom'⟩ := room_append.mp hroom
    have hinside : (s.inside tag.tag attrs (inlines.render ++ (endText tag.tag ++
        (rest.render ++ (endText parent ++ k))))).Room inlines.extent :=
      (room_element.mp hspan).1
    have hbegun' : Begun ((before ++ inlines.flatten) ++ rest.flatten) := by
      simpa [Inlines.flatten] using hbegun
    have hlength := (length_lt_of_startText hsplit).trans_le (Nat.le_of_lt_succ hfuel)
    obtain ⟨flow₁, hloop₁, hflow₁⟩ := ihInner rfl hlength hinside hinner hflow hbegun'.of_append
    have hfuel' : (rest.render ++ (endText parent ++ k)).length < fuel := by
      simp only [length_append] at hlength ⊢
      omega
    obtain ⟨flow', hloop, hflow'⟩ := ihRest rfl hfuel' hroom' hrest hflow₁ hbegun'
    refine ⟨flow', ?_, by simpa [Inlines.flatten] using hflow'⟩
    rw [inlinesLoop, run_get_bind, peek_startText tag.tag attrs hsplit]
    dsimp only
    rw [if_neg hnotBr, spanTag?_tag]
    dsimp only
    rw [run_bind_of_ok (startTag_append hnotBr hspan hsplit),
      run_bind_of_ok (nonEmpty_of_ok hloop₁ hne)]
    rw [run_bind_of_ok (endTag_append rfl), left_after_inside, run_bind_of_ok hloop, after_after]
    rfl

theorem leaf_append {l : Leaf} (htag : tag ≠ .br) (h : s.rest = l.render tag ++ k)
    (hfuel : s.rest.length ≤ fuel) (hroom : s.Room l.extent) (hformed : l.Formed) :
    leaf fuel tag s = .ok (l, s.after k l.extent) := by
  have hsplit : s.rest = startText tag l.attrs ++
      (l.inlines.render ++ (endText tag ++ ("\n" ++ k))) := by
    simpa [Leaf.render] using h
  have hinside : (s.inside tag l.attrs (l.inlines.render ++
      (endText tag ++ ("\n" ++ k)))).Room l.inlines.extent := (room_element.mp hroom).1
  have hlength := (length_lt_of_startText hsplit).trans_le hfuel
  obtain ⟨flow, hloop, hflow⟩ := inlinesLoop_append rfl hlength hinside hformed.inlines after_new
    (by simpa using hformed.spacing.toBegun)
  have hfinish : ∀ offset, flow.finish offset = .ok () := fun offset =>
    (hflow.finish_eq_ok offset).mpr (by simpa using hformed.spacing.noTrailing)
  rw [leaf, run_bind_of_ok (startTag_append htag hroom hsplit), inlines,
    run_bind_of_ok (nonEmpty_of_ok hloop hformed.notEmpty)]
  dsimp only
  rw [run_get_bind, run_lift_bind_of_ok (hfinish _), run_bind_of_ok (endTag_append rfl),
    left_after_inside, run_bind_of_ok (optionalLf_append rfl)]
  simp [run_pure, Leaf.extent, Extent.append, Extent.none]

/-! ## Lists, blocks and containers -/

theorem closing_append {children : Parse (List α)} {items : List α} (hne : items ≠ [])
    (h : children s = .ok (items, s'.after (endText t ++ ("\n" ++ k)) .none)) :
    closing t children s = .ok (items, s'.left k) := by
  have hempty : ¬items.isEmpty = true := by simpa using hne
  rw [closing, run_bind_of_ok h, if_neg hempty, run_bind_of_ok (endTag_append rfl),
    run_bind_of_ok (optionalLf_append rfl)]
  simp [run_pure, after, left, Extent.none]

theorem itemsLoop_append {items : List Leaf}
    (h : s.rest = items.flatMap (Leaf.render .li) ++ (endText t ++ k))
    (hfuel : s.rest.length < fuel) (hroom : s.Room (.concat (items.map Leaf.extent)))
    (hformed : ∀ item ∈ items, item.Formed) :
    itemsLoop fuel t s =
      .ok (items, s.after (endText t ++ k) (.concat (items.map Leaf.extent))) := by
  induction items generalizing s fuel with
  | nil =>
    obtain ⟨fuel, rfl⟩ := exists_succ hfuel
    have hrest : s.rest = endText t ++ k := h
    rw [itemsLoop, run_get_bind, peek_endText t hrest]
    dsimp only
    rw [if_pos rfl, run_pure, map_nil, Extent.concat, foldr_nil, after_none, ← hrest]
  | cons item items ih =>
    obtain ⟨fuel, rfl⟩ := exists_succ hfuel
    have hsplit : s.rest = item.render .li ++
        (items.flatMap (Leaf.render .li) ++ (endText t ++ k)) := by
      simpa using h
    have hpeek : s.rest = startText .li item.attrs ++ (item.inlines.render ++ (endText .li ++
        ("\n" ++ (items.flatMap (Leaf.render .li) ++ (endText t ++ k))))) := by
      simpa [Leaf.render] using hsplit
    obtain ⟨hitem, hroom'⟩ := room_append.mp hroom
    have hleaf := leaf_append (by decide) hsplit (Nat.le_of_lt_succ hfuel) hitem
      (hformed item (by simp))
    have hfuel' : (items.flatMap (Leaf.render .li) ++ (endText t ++ k)).length < fuel := by
      have := length_lt_of_startText hpeek
      simp only [length_append] at this ⊢
      omega
    have hloop := ih rfl hfuel' hroom' fun item hitem => hformed item (by simp [hitem])
    rw [itemsLoop, run_get_bind, peek_startText .li item.attrs hpeek]
    dsimp only
    rw [if_pos rfl, run_bind_of_ok hleaf, run_bind_of_ok hloop, after_after]
    rfl

theorem peek_container (h : s.rest = containerText tag attrs text ++ k) :
    s.peek = .start (.tag tag) := by
  simp only [containerText, append_assoc] at h
  exact peek_startText tag attrs h

/-- A container is read if its children are, inside it. -/
theorem container_append {β : Type} {loop : Parse (List α)} {items : List α}
    {next : Attrs → List α → Parse β} (htag : tag ≠ .br) (hne : items ≠ [])
    (h : s.rest = containerText tag attrs text ++ k) (hroom : s.Room (.element attrs e))
    (hloop : ∀ s' : Parser, s'.rest = text ++ (endText tag ++ ("\n" ++ k)) →
      s'.rest.length < s.rest.length → s'.Room e →
      loop s' = .ok (items, s'.after (endText tag ++ ("\n" ++ k)) e)) :
    (do
      let attrs ← startTag tag
      optionalLf
      let items ← closing tag loop
      next attrs items) s = next attrs items (s.after k (.element attrs e)) := by
  have hsplit : s.rest = startText tag attrs ++
      ("\n" ++ (text ++ (endText tag ++ ("\n" ++ k)))) := by
    simpa [containerText] using h
  have hlength : (text ++ (endText tag ++ ("\n" ++ k))).length < s.rest.length := by
    have := length_lt_of_startText hsplit
    simp only [length_append] at this ⊢
    omega
  have hinside : (s.inside tag attrs (text ++ (endText tag ++ ("\n" ++ k)))).Room e :=
    (room_element.mp hroom).1
  have hchildren := hloop _ rfl hlength hinside
  have hclosing : closing tag loop
      (s.inside tag attrs (text ++ (endText tag ++ ("\n" ++ k)))) =
        .ok (items, s.after k (.element attrs e)) := by
    have hafter : ∀ rest, (s.inside tag attrs rest).after
        (endText tag ++ ("\n" ++ k)) e =
          ((s.inside tag attrs rest).after rest e).after (endText tag ++ ("\n" ++ k)) .none := by
      simp [Extent.append, Extent.none]
    rw [hafter] at hchildren
    rw [closing_append hne hchildren, left_after_inside]
  have hlf : optionalLf (s.inside tag attrs
      ("\n" ++ (text ++ (endText tag ++ ("\n" ++ k))))) =
        .ok ((), s.inside tag attrs (text ++ (endText tag ++ ("\n" ++ k)))) := by
    rfl
  rw [run_bind_of_ok (startTag_append htag hroom hsplit), run_bind_of_ok hlf,
    run_bind_of_ok hclosing]

theorem list_append {tag : ListTag} {l : ItemList} (h : s.rest = (Block.list tag l).render ++ k)
    (hfuel : s.rest.length ≤ fuel) (hroom : s.Room (Block.list tag l).extent)
    (hformed : (Block.list tag l).Formed) :
    list fuel tag.tag s = .ok (l, s.after k (Block.list tag l).extent) := by
  have hnotBr : tag.tag ≠ .br := by cases tag <;> decide
  exact container_append hnotBr hformed.1 h hroom fun s' hrest hlength hroom' =>
    itemsLoop_append hrest (by omega) hroom' hformed.2

/-- The tag a block starts with. -/
def blockTag : Block → TextTag ⊕ ListTag
  | .leaf tag _ => .inl tag
  | .list tag _ => .inr tag

theorem block_append (h : s.rest = b.render ++ k) (hfuel : s.rest.length ≤ fuel)
    (hroom : s.Room b.extent) (hformed : b.Formed) :
    block fuel (blockTag b) s = .ok (b, s.after k b.extent) := by
  cases b with
  | leaf tag l =>
    have hnotBr : tag.tag ≠ .br := by cases tag <;> decide
    have hleaf := leaf_append hnotBr h hfuel hroom hformed
    rw [blockTag, block, run_bind_of_ok hleaf]
    rfl
  | list tag l =>
    rw [blockTag, block, run_bind_of_ok (list_append h hfuel hroom hformed)]
    rfl

/-- A block starts with its tag. -/
theorem peek_block (h : s.rest = b.render ++ k) :
    ∃ t, s.peek = .start (.tag t) ∧ t ≠ Tag.section ∧ blockTag? t = some (blockTag b) := by
  cases b with
  | leaf tag l =>
    have hsplit : s.rest = startText tag.tag l.attrs ++
        (l.inlines.render ++ (endText tag.tag ++ ("\n" ++ k))) := by
      simpa [Block.render, Leaf.render] using h
    exact ⟨tag.tag, peek_startText _ _ hsplit, by cases tag <;> decide, by cases tag <;> rfl⟩
  | list tag l => exact ⟨tag.tag, peek_container h, by cases tag <;> decide, by cases tag <;> rfl⟩

theorem childrenLoop_finish (h : s.rest = endText container ++ k) :
    childrenLoop (fuel + 1) container sections s =
      .ok ([], s.after (endText container ++ k) .none) := by
  rw [childrenLoop, run_get_bind, peek_endText container h]
  dsimp only
  rw [if_pos rfl, run_pure, after_none, ← h]

/-- A child is read, before the other children that are read. -/
def ReadsChild (container : Tag) (sections : Bool) (item : MainItem) : Prop :=
  ∀ {s s' : Parser} {k : Text} {fuel : Nat} {items : List MainItem}, s.rest = item.render ++ k →
    s.rest.length ≤ fuel → s.Room item.extent →
    childrenLoop fuel container sections (s.after k item.extent) = .ok (items, s') →
    childrenLoop (fuel + 1) container sections s = .ok (item :: items, s')

theorem readsChild_block (hformed : b.Formed) : ReadsChild container sections (.block b) := by
  intro s s' k fuel items h hfuel hroom hloop
  obtain ⟨t, hpeek, hnotSection, htag⟩ := peek_block h
  rw [childrenLoop, run_get_bind, hpeek]
  dsimp only
  rw [if_neg (by simp [hnotSection]), htag]
  dsimp only
  rw [run_bind_of_ok (block_append h hfuel hroom hformed)]
  exact run_bind_of_ok hloop

theorem length_mainItemRender (item : MainItem) : 1 ≤ item.render.length := by
  rcases item with _ | b
  · simp [MainItem.render, blocksText, containerText, startText]
  · cases b <;> simp [MainItem.render, Block.render, Leaf.render, containerText, startText]

theorem childrenLoop_append (hchild : ∀ item ∈ items, ReadsChild container sections item)
    (h : s.rest = items.flatMap MainItem.render ++ (endText container ++ k))
    (hfuel : s.rest.length < fuel) (hroom : s.Room (.concat (items.map MainItem.extent))) :
    childrenLoop fuel container sections s = .ok (items,
      s.after (endText container ++ k) (.concat (items.map MainItem.extent))) := by
  induction items generalizing s fuel with
  | nil =>
    obtain ⟨fuel, rfl⟩ := exists_succ hfuel
    exact childrenLoop_finish h
  | cons item items ih =>
    obtain ⟨fuel, rfl⟩ := exists_succ hfuel
    have hsplit : s.rest = item.render ++ (items.flatMap MainItem.render ++
        (endText container ++ k)) := by
      simpa using h
    obtain ⟨hitem, hroom'⟩ := room_append.mp hroom
    have hfuel' : (items.flatMap MainItem.render ++ (endText container ++ k)).length < fuel := by
      rw [hsplit, length_append] at hfuel
      have := length_mainItemRender item
      omega
    have hloop := ih (fun item hitem => hchild item (by simp [hitem])) rfl hfuel' hroom'
    rw [after_after] at hloop
    exact hchild item (by simp) hsplit (Nat.le_of_lt_succ hfuel) hitem hloop

theorem childrenLoop_blocks {blocks : List Block}
    (h : s.rest = blocks.flatMap Block.render ++ (endText container ++ k))
    (hfuel : s.rest.length < fuel) (hroom : s.Room (.concat (blocks.map Block.extent)))
    (hformed : ∀ b ∈ blocks, b.Formed) :
    childrenLoop fuel container sections s = .ok (blocks.map .block,
      s.after (endText container ++ k) (.concat (blocks.map Block.extent))) := by
  have hextent : blocks.map Block.extent = (blocks.map .block).map MainItem.extent := by
    rw [map_map]
    rfl
  rw [hextent] at hroom ⊢
  refine childrenLoop_append (fun item hitem => ?_) (by rwa [flatMap_map]) hfuel hroom
  obtain ⟨b, hb, rfl⟩ := mem_map.mp hitem
  exact readsChild_block (hformed b hb)

theorem blocksOf_map (blocks : List Block) : blocksOf (blocks.map .block) = blocks := by
  simp [blocksOf]

theorem readsChild_section {sect : Section} (hformed : (MainItem.sect sect).Formed) :
    ReadsChild container true (.sect sect) := by
  intro s s' k fuel items h hfuel hroom hloop
  have hne : sect.blocks.map MainItem.block ≠ [] := by simpa using hformed.1
  rw [childrenLoop, run_get_bind, peek_container h]
  refine (container_append (by decide) hne h hroom fun s₁ hrest hlength hroom' =>
    childrenLoop_blocks hrest (by omega) hroom' hformed.2).trans ?_
  rw [blocksOf_map]
  exact run_bind_of_ok hloop

theorem readsChild_of_formed {item : MainItem} (h : item.Formed) :
    ReadsChild container true item := by
  cases item with
  | block b => exact readsChild_block h
  | sect sect => exact readsChild_section h

/-! ## The document -/

theorem region_append {r : Region} (htag : tag ≠ .br)
    (h : s.rest = blocksText tag r.attrs r.blocks ++ k) (hfuel : s.rest.length ≤ fuel)
    (hroom : s.Room (blocksExtent r.attrs r.blocks)) (hformed : BlocksFormed r.blocks) :
    region fuel tag s = .ok (r, s.after k (blocksExtent r.attrs r.blocks)) := by
  have hne : r.blocks.map MainItem.block ≠ [] := by simpa using hformed.1
  refine (container_append htag hne h hroom fun s₁ hrest hlength hroom' =>
    childrenLoop_blocks hrest (by omega) hroom' hformed.2).trans ?_
  rw [blocksOf_map]
  rfl

theorem main_append
    (h : s.rest = containerText .main m.attrs (m.items.flatMap MainItem.render) ++ k)
    (hfuel : s.rest.length ≤ fuel)
    (hroom : s.Room (.element m.attrs (.concat (m.items.map MainItem.extent))))
    (hformed : m.items ≠ [] ∧ ∀ item ∈ m.items, item.Formed) :
    main fuel s = .ok (m, s.after k (.element m.attrs (.concat (m.items.map MainItem.extent)))) :=
  container_append (by decide) hformed.1 h hroom fun _ hrest hlength hroom' =>
    childrenLoop_append (fun item hitem => readsChild_of_formed (hformed.2 item hitem)) hrest
      (by omega) hroom'

theorem optionalRegion_append {r : Option Region} (htag : tag ≠ .br)
    (h : s.rest = regionText tag r ++ k) (hnone : r = none → s.peekStart tag = false)
    (hfuel : s.rest.length ≤ fuel) (hroom : s.Room (regionExtent r))
    (hformed : ∀ region, r = some region → BlocksFormed region.blocks) :
    optionalRegion fuel tag s = .ok (r, s.after k (regionExtent r)) := by
  cases r with
  | none =>
    have hrest : s.rest = k := h
    rw [optionalRegion, run_get_bind, if_neg (by simp [hnone rfl]), regionExtent, after_none,
      ← hrest]
    rfl
  | some r =>
    have hpeek : s.peekStart tag = true := by simp [peekStart, peek_container h]
    have hregion := region_append htag h hfuel hroom (hformed r rfl)
    rw [optionalRegion, run_get_bind, if_pos hpeek, run_bind_of_ok hregion]
    rfl

theorem langOk_of_langForm (h : LangForm lang) : langOk lang = true ∧ '"' ∉ lang := by
  have hletter : ∀ c : Char, c.isLower = true ∨ c.isUpper = true → '"' ≠ c := by
    rintro c h rfl
    revert h
    decide
  rcases h with ⟨a, b, rfl, ha, hb⟩ | ⟨a, b, c, d, rfl, ha, hb, hc, hd⟩
  · simp [langOk, ha, hb, hletter a (.inl ha), hletter b (.inl hb)]
  · simp [langOk, ha, hb, hc, hd, hletter a (.inl ha), hletter b (.inl hb),
      hletter c (.inr hc), hletter d (.inr hd)]

theorem lang_append (hform : LangForm lang) (h : s.rest = lang ++ (afterLang ++ k)) :
    Parser.lang s = .ok (lang, s.after (afterLang ++ k) .none) := by
  obtain ⟨hok, hquote⟩ := langOk_of_langForm hform
  have htake : s.rest.takeWhile (fun c => decide (c ≠ '"')) = lang := by
    rw [h]
    exact takeWhile_quote hquote _
  rw [Parser.lang, run_get_bind]
  simp only [htake]
  rw [if_neg (by simp [hok]), run_set_bind, run_pure, after_none, h, drop_left]

theorem title_append {title : Text} (hspaced : WellSpaced title)
    (hchars : 1 ≤ title.length ∧ title.length ≤ maxTitleChars)
    (h : s.rest = escape title ++ (afterTitle ++ k)) :
    Parser.title s = .ok (title, s.after (afterTitle ++ k) .none) := by
  have hfuel : title.length < s.rest.length := by
    have hescape := length_le_escape title
    have hafter : 0 < afterTitle.length := by decide
    rw [h, length_append, length_append]
    omega
  obtain ⟨flow, hrun, hflow, hcount⟩ := textRun_append true h rfl hfuel after_new
    (by simpa using hspaced.toBegun) (fun _ => by simpa [Flow.new] using hchars.2)
  have hne : flow.chars ≠ 0 := by omega
  have hpeek : (s.after (afterTitle ++ k) .none).peek = .stop .other := by rfl
  have hfinish : ∀ offset, flow.finish offset = .ok () := fun offset =>
    (hflow.finish_eq_ok offset).mpr (by simpa using hspaced.noTrailing)
  rw [Parser.title, run_get_bind, run_bind_of_ok hrun]
  dsimp only
  rw [run_get_bind, hpeek]
  dsimp only
  rw [if_neg hne, run_lift_bind_of_ok (hfinish _), run_pure]

theorem before_append {needle : Text} (h : '<' ∉ text) (k : Text) :
    before ('<' :: needle) (text ++ ('<' :: needle ++ k)) = text := by
  induction text with
  | nil => simp [before]
  | cons c text ih =>
    simp only [mem_cons, not_or] at h
    simp only [cons_append] at ih ⊢
    simp [before, h.1, ih h.2]

theorem css_append (h : s.rest = POLICY_V1.css ++ (afterCss ++ k)) :
    css s = .ok ((), s.after (afterCss ++ k) .none) := by
  have hregion : before ("</" ++ styleTag) s.rest = POLICY_V1.css := by
    have hneedle : "</" ++ styleTag = '<' :: "/style" := rfl
    have hafter : afterCss ++ k = '<' :: "/style" ++ (">\n</head>\n<body>\n" ++ k) := rfl
    rw [h, hneedle, hafter, before_append lt_not_mem_css]
  rw [css, run_get_bind]
  simp only [hregion]
  rw [if_neg (by simp), run_set, after_none, h, drop_left]

theorem finish_append (h : s.rest = epilogue) : finish s = .ok ((), s.after [] .none) := by
  rw [finish, run_get_bind, if_neg (by simp [atText, h])]
  simp only [h, drop_length]
  rw [if_neg (by simp), run_set, after_none]

theorem peekStart_false {next : Next} (h : s.peek = next) (hne : next ≠ .start (.tag tag)) :
    s.peekStart tag = false := by
  simp [peekStart, h, hne]

theorem peek_epilogue (h : s.rest = epilogue) : s.peek = .stop .other := by
  simp only [peek, h]
  rfl

theorem body_append (h : page.WellFormed) (hrest : s.rest = page.renderBody ++ epilogue)
    (hfuel : s.rest.length ≤ fuel) (hroom : s.Room page.extent) :
    body fuel page.lang page.title s = .ok (page, s.after [] page.extent) := by
  obtain ⟨footerText, hfooterText⟩ :
    ∃ text, text = regionText .footer page.footer ++ epilogue := ⟨_, rfl⟩
  obtain ⟨mainText, hmainText⟩ : ∃ text, text = containerText .main page.main.attrs
    (page.main.items.flatMap MainItem.render) ++ footerText := ⟨_, rfl⟩
  obtain ⟨mainExtent, hmainExtent⟩ : ∃ e, e = Extent.element page.main.attrs
    (.concat (page.main.items.map MainItem.extent)) := ⟨_, rfl⟩
  have hsplit : s.rest = regionText .header page.header ++ mainText := by
    simpa [Page.renderBody, hmainText, hfooterText] using hrest
  rw [Page.extent, ← hmainExtent] at hroom ⊢
  obtain ⟨hheaderRoom, hrestRoom⟩ := room_append.mp hroom
  obtain ⟨hmainRoom, hfooterRoom⟩ : (s.after mainText (regionExtent page.header)).Room mainExtent ∧
      ((s.after mainText (regionExtent page.header)).after footerText mainExtent).Room
        (regionExtent page.footer) := room_append.mp hrestRoom
  have hlengths : mainText.length ≤ fuel ∧ footerText.length ≤ fuel := by
    rw [hsplit, length_append] at hfuel
    have hmain := congrArg List.length hmainText
    rw [length_append] at hmain
    omega
  have hnoHeader : page.header = none → s.peekStart .header = false := by
    intro hnone
    rw [hnone, hmainText] at hsplit
    exact peekStart_false (peek_container hsplit) (by simp)
  have hheader := optionalRegion_append (by decide) hsplit hnoHeader hfuel hheaderRoom h.header
  rw [hmainExtent] at hmainRoom
  have hmain := main_append (s := s.after mainText (regionExtent page.header)) hmainText
    hlengths.1 hmainRoom h.main
  rw [← hmainExtent] at hmain
  have hnoFooter : page.footer = none →
      ((s.after mainText (regionExtent page.header)).after footerText mainExtent).peekStart
        .footer = false := by
    intro hnone
    rw [hnone] at hfooterText
    exact peekStart_false (peek_epilogue hfooterText) (by simp)
  have hfooter := optionalRegion_append (by decide) hfooterText hnoFooter hlengths.2 hfooterRoom
    h.footer
  have hpeek : (s.after mainText (regionExtent page.header)).peek = .start (.tag .main) :=
    peek_container hmainText
  rw [body, run_bind_of_ok hheader, run_get_bind, if_neg (by simp [peekStart, hpeek]),
    run_bind_of_ok hmain, run_bind_of_ok hfooter, run_bind_of_ok (finish_append rfl), run_pure]
  simp [Extent.append, Extent.none, Nat.add_assoc]

end Parser

/-- The canonical text of a page that obeys the grammar is parsed to that page. -/
theorem parseDocument_render (h : page.WellFormed) : parseDocument page.render = .ok page := by
  have hrender : page.render = POLICY_V1.head ++ (page.lang ++ (afterLang ++
      (escape page.title ++ (afterTitle ++ (POLICY_V1.css ++ (afterCss ++
        (page.renderBody ++ epilogue))))))) := by
    simp [Page.render]
  generalize hfuel : page.render.length + 1 = fuel
  have hlength : (page.renderBody ++ epilogue).length ≤ fuel := by
    rw [← hfuel, hrender]
    simp only [length_append]
    omega
  have hroom : ∀ rest, Parser.Room ⟨page.render, rest, [], 0, []⟩ page.extent := by
    intro rest
    exact ⟨by simpa using h.elements, by simpa using h.depth, by simpa using h.uniqueIds, h.ids⟩
  have hbody := body_append (s := ⟨page.render, page.renderBody ++ epilogue,
    [], 0, []⟩) h rfl hlength (hroom _)
  have hprologue : document fuel ⟨page.render, page.render, [], 0, []⟩ =
      body fuel page.lang page.title
        ⟨page.render, page.renderBody ++ epilogue, [], 0, []⟩ := by
    rw [document, run_bind_of_ok (fixed_append _ _ hrender),
      run_bind_of_ok (lang_append h.lang rfl), run_bind_of_ok (fixed_append _ _ rfl),
      run_bind_of_ok (title_append h.title h.titleChars rfl),
      run_bind_of_ok (fixed_append _ _ rfl), run_bind_of_ok (css_append rfl),
      run_bind_of_ok (fixed_append _ _ rfl)]
    rfl
  rw [parseDocument, hfuel, hprologue, hbody]
  rfl

end NexusOs.InertPage

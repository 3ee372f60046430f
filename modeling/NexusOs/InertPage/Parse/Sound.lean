import NexusOs.InertPage.Parse.State

/-!
# What was parsed obeys the grammar

A part of the parser that does not fail gives a tree that obeys the grammar, counts its elements and
enters its ids, and there was room for them.
-/

namespace NexusOs.InertPage

open Utf8 Fallible List POLICY_V1

variable {text : Text} {page : Page}

namespace Parser

variable {s s' : Parser} {e : Extent} {k title value lang : Text} {s₁ s₂ : Parser} {c : Char}
  {flow flow' : Flow} {fuel : Nat} {ids : List Text} {attrs attrs' : Attrs} {tag : Tag}
  {content : Inlines} {α β : Type} {b : β} {items : List MainItem} {sections : Bool} {loop : Parse (List α)}

/-- The parser only moved on. -/
def Moved (s s' : Parser) : Prop := ∃ k, s' = s.after k .none

theorem Moved.after_eq (h : Moved s₁ s₂) (hs : s₁ = s.after k e) : ∃ k', s₂ = s.after k' e := by
  obtain ⟨k', rfl⟩ := h
  refine ⟨k', ?_⟩
  rw [hs]
  simp [Extent.append, Extent.none]

theorem Room.of_moved (hroom : s.Room e) (h : Moved s s') : s'.Room e := by
  obtain ⟨k, rfl⟩ := h
  rw [after_none]
  exact ⟨hroom.elements, hroom.depth, hroom.unique, hroom.ids⟩

theorem moved_of_fixed {lit : Text} {code : RefusalCode} (h : fixed lit code s = .ok ((), s')) :
    Moved s s' := by
  rw [fixed, run_get_bind] at h
  split at h
  · cases h
  · cases h
    exact ⟨_, after_none.symm⟩

theorem moved_of_optionalLf (h : optionalLf s = .ok ((), s')) : Moved s s' := by
  rw [optionalLf, run_get_bind] at h
  split at h
  · cases h
    exact ⟨_, after_none.symm⟩
  · cases h
    exact ⟨_, after_none.symm⟩

/-! ## Text -/

/-- A character was read. -/
theorem length_of_nextChar {title : Bool} {rest : Text} (h : s.nextChar title = .ok (c, rest)) :
    rest.length < s.rest.length := by
  unfold nextChar at h
  split at h
  · cases h
  rename_i d tail hrest
  split at h
  · split at h
    · rename_i c' entity hfind
      cases h
      have hmem := mem_of_find?_eq_some hfind
      have hpos : 0 < entity.length := by
        simp only [entities, mem_cons, not_mem_nil, or_false] at hmem
        rcases hmem with ⟨-, rfl⟩ | ⟨-, rfl⟩ | ⟨-, rfl⟩ | ⟨-, rfl⟩ | ⟨-, rfl⟩ <;> decide
      rw [length_drop, hrest, length_cons]
      omega
    · cases h
  · split at h
    · cases h
    · cases h
      rw [hrest, length_cons]
      omega

theorem chars_of_char {offset : Nat} (h : flow.char c offset = .ok flow') :
    flow'.chars = flow.chars + 1 := by
  obtain ⟨-, h⟩ := ite_error_eq_ok.mp h
  split at h
  · obtain ⟨-, ⟨⟩⟩ := ite_error_eq_ok.mp h
    rfl
  · obtain ⟨-, ⟨⟩⟩ := ite_error_eq_ok.mp h
    rfl

/-- What a run of text gives: it goes up to the next tag or the end, takes a text that is not at
one, and its flow has read it. -/
structure TextRead (s s' : Parser) (title : Bool) (flow flow' : Flow) (text : Text) : Prop where
  moved : Moved s s'
  stops : s'.rest = [] ∨ s'.rest.head? = some '<'
  notEmpty : s.rest ≠ [] → s.rest.head? ≠ some '<' → text ≠ []
  reads : ∀ before, flow.After before → Begun before →
    flow'.After (before ++ text) ∧ Begun (before ++ text)
  chars : flow'.chars = flow.chars + text.length
  cap : title = true → text ≠ [] → flow'.chars ≤ maxTitleChars

theorem textRead_of_textRun {title : Bool} (hfuel : s.rest.length ≤ fuel)
    (h : textRun title fuel flow s = .ok ((text, flow'), s')) :
    TextRead s s' title flow flow' text := by
  induction fuel generalizing s flow text with
  | zero =>
    have hrest : s.rest = [] := length_eq_zero_iff.mp (Nat.le_zero.mp hfuel)
    cases h
    exact ⟨⟨_, after_none.symm⟩, .inl hrest, fun hne => absurd hrest hne,
      by simp +contextual, by simp, by simp⟩
  | succ fuel ih =>
    rw [textRun, run_get_bind] at h
    split at h
    · rename_i hstop
      cases h
      simp only [Bool.or_eq_true, decide_eq_true_eq] at hstop
      refine ⟨⟨_, after_none.symm⟩, hstop, fun hne hhead => ?_, by simp +contextual, by simp,
        by simp⟩
      exact absurd hstop (by simp [hne, hhead])
    · obtain ⟨⟨c, rest⟩, hnext, h⟩ := ok_of_run_lift_bind h
      dsimp only at h
      rw [run_set_bind] at h
      obtain ⟨flow₁, hchar, h⟩ := ok_of_run_lift_bind h
      split at h
      · cases h
      rename_i hcap
      obtain ⟨⟨out, flow₂⟩, s₃, hrun, h⟩ := run_bind_eq_ok.mp h
      dsimp only at h
      cases h
      have hlength := length_of_nextChar hnext
      have hread := ih (s := { s with rest }) (by simp only; omega) hrun
      have hcount := chars_of_char hchar
      refine ⟨?_, hread.stops, fun _ _ => cons_ne_nil _ _, ?_, ?_, ?_⟩
      · obtain ⟨k, hk⟩ := hread.moved
        exact ⟨k, by rw [hk, after_none, after_none]⟩
      · intro before hafter hbegun
        obtain ⟨hafter₁, hbegun₁⟩ := hafter.of_char hbegun hchar
        simpa using hread.reads _ hafter₁ hbegun₁
      · rw [hread.chars, length_cons]
        omega
      intro htitle _
      by_cases hout : out = []
      · have hchars := hread.chars
        rw [hout, length_nil] at hchars
        simp only [htitle, Bool.true_and, decide_eq_true_eq] at hcap
        omega
      · exact hread.cap htitle hout

/-! ## Tags -/

theorem idForm_of_idOk {id : Text} (h : idOk id = true) : IdForm id := by
  cases id with
  | nil => cases h
  | cons first rest =>
    simp only [idOk, Bool.and_eq_true, decide_eq_true_eq, all_eq_true, Bool.or_eq_true] at h
    exact ⟨first, rest, rfl, h.1.1, by simpa using h.1.2, fun c hc => or_assoc.mp (h.2 c hc)⟩

/-- The parser moved on and entered these ids, which were not there. -/
def Entered (s s' : Parser) (ids : List Text) : Prop :=
  ∃ k, s' = { s with rest := k, ids := s.ids ++ ids } ∧ (∀ id ∈ ids, IdForm id) ∧
    (s.ids.Nodup → (s.ids ++ ids).Nodup)

theorem Entered.trans {s₃ : Parser} {a b : List Text} (hab : Entered s₁ s₂ a)
    (hbc : Entered s₂ s₃ b) : Entered s₁ s₃ (a ++ b) := by
  obtain ⟨k, rfl, ha, hunique⟩ := hab
  obtain ⟨k', rfl, hb, hunique'⟩ := hbc
  refine ⟨k', by simp, ?_, fun h => by simpa using hunique' (hunique h)⟩
  simpa [or_imp, forall_and] using ⟨ha, hb⟩

theorem Moved.entered (h : Moved s s') : Entered s s' [] := by
  obtain ⟨k, rfl⟩ := h
  exact ⟨k, by simp [after_none], by simp, by simp⟩

theorem Moved.trans_entered (hmoved : Moved s s₁) (h : Entered s₁ s₂ ids) : Entered s s₂ ids := by
  simpa using hmoved.entered.trans h

theorem Entered.trans_moved (h : Entered s s₁ ids) (hmoved : Moved s₁ s₂) : Entered s s₂ ids := by
  simpa using h.trans hmoved.entered

theorem entered_of_idValue (h : idValue value s = .ok ((), s')) : Entered s s' [value] := by
  rw [idValue, run_get_bind] at h
  split at h
  · cases h
  rename_i hok
  split at h
  · cases h
  rename_i hfresh
  cases h
  have hform : IdForm value := idForm_of_idOk (by simpa using hok)
  refine ⟨s.rest, rfl, by simpa using hform, fun hunique => ?_⟩
  rw [nodup_append]
  refine ⟨hunique, by simp, fun a ha b hb hab => hfresh ?_⟩
  rw [mem_singleton] at hb
  rwa [← hb, ← hab]

/-- A value of an attribute enters the id it gives, if it is an id. -/
theorem entered_of_attributeValue {name : Text} (hid : name = className ∨ attrs.id = none)
    (h : attributeValue name value attrs s = .ok (attrs', s')) :
    ∃ ids, Entered s s' ids ∧ attrs'.id.toList = attrs.id.toList ++ ids := by
  rw [attributeValue] at h
  split at h
  · rw [run_get_bind] at h
    obtain ⟨c, -, h⟩ := ok_of_run_lift_bind h
    cases h
    exact ⟨[], Moved.entered ⟨_, after_none.symm⟩, by simp⟩
  · rename_i hname
    obtain ⟨⟨⟩, s₁, hvalue, h⟩ := run_bind_eq_ok.mp h
    cases h
    exact ⟨[value], entered_of_idValue hvalue, by simp [hid.resolve_left hname]⟩

theorem entered_of_attributeAt (h : attributeAt attrs s = .ok (attrs', s')) :
    ∃ ids, Entered s s' ids ∧ attrs'.id.toList = attrs.id.toList ++ ids := by
  rw [attributeAt, run_get_bind] at h
  generalize s.rest.takeWhile (fun c => decide (c ∉ [' ', '=', '>', '/', '\n', '"', '\''])) = name
    at h
  split at h
  · cases h
  rename_i hfirst
  split at h
  · cases h
  rename_i hallowed
  dsimp only at h
  split at h
  · cases h
  split at h
  · cases h
  rw [run_set_bind] at h
  obtain ⟨attrs₁, s₁, hvalue, h⟩ := run_bind_eq_ok.mp h
  cases h
  have hid : name = className ∨ attrs.id = none := by
    by_cases hclass : name = className
    · exact .inl hclass
    right
    simp only [hclass, ne_eq, not_false_eq_true, true_and, not_not] at hallowed
    simp only [not_or, not_and] at hfirst
    simpa using hfirst.2.2 hallowed
  obtain ⟨ids, hentered, hids⟩ := entered_of_attributeValue hid hvalue
  have hbefore : Moved s { s with rest := (s.rest.drop name.length).drop 2 } := ⟨_, after_none.symm⟩
  exact ⟨ids, (hbefore.trans_entered hentered).trans_moved ⟨_, after_none.symm⟩, hids⟩

theorem entered_of_attributes (h : attributes fuel attrs s = .ok (attrs', s')) :
    ∃ ids, Entered s s' ids ∧ attrs'.id.toList = attrs.id.toList ++ ids := by
  induction fuel generalizing s attrs with
  | zero => cases h
  | succ fuel ih =>
    rw [attributes, run_get_bind] at h
    split at h
    · rw [run_set_bind] at h
      cases h
      exact ⟨[], Moved.entered ⟨_, after_none.symm⟩, by simp⟩
    · split at h
      · cases h
      split at h
      · rw [run_set_bind, run_bind_eq_ok] at h
        obtain ⟨attrs₁, s₁, hat, h⟩ := h
        obtain ⟨ids, hentered, hids⟩ := entered_of_attributeAt hat
        obtain ⟨ids', hentered', hids'⟩ := ih h
        have hmoved : Moved s { s with rest := s.rest.tail } := ⟨_, after_none.symm⟩
        exact ⟨ids ++ ids', (hmoved.trans_entered hentered).trans hentered',
          by rw [hids', hids, append_assoc]⟩
      · split at h <;> cases h

theorem of_enter (h : enter tag s = .ok ((), s')) :
    s' = { s with elements := s.elements + 1, openTags := tag :: s.openTags } ∧
      s.elements + 1 ≤ maxElements ∧ s.openTags.length + 1 ≤ maxDepth := by
  rw [enter, run_get_bind] at h
  split at h
  · cases h
  split at h
  · cases h
  · rename_i hdepth
    cases h
    exact ⟨rfl, by omega, by omega⟩

/-- A start tag opens its element and enters its id. -/
theorem of_startTag (htag : tag ≠ .br) (hroom : s.Room .none)
    (h : startTag tag s = .ok (attrs, s')) :
    ∃ k, s' = s.inside tag attrs k ∧ s'.Room .none ∧ ∀ id ∈ attrs.id, IdForm id := by
  rw [startTag, run_bind_eq_ok] at h
  obtain ⟨⟨⟩, s₁, henter, h⟩ := h
  obtain ⟨rfl, helements, hdepth⟩ := of_enter henter
  rw [run_modify_bind, run_get_bind, if_neg htag] at h
  obtain ⟨ids, ⟨k, rfl, hform, hunique⟩, hids⟩ := entered_of_attributes h
  subst hids
  refine ⟨k, rfl, ⟨?_, ?_, ?_, by simp [Extent.none]⟩, fun id hid => hform id (by simpa using hid)⟩
  · simpa [Extent.none] using helements
  · simpa [Extent.none] using hdepth
  · simpa [Extent.none] using hunique (by simpa [Extent.none] using hroom.unique)

theorem of_startTag_br (hroom : s.Room .none) (h : startTag .br s = .ok (attrs, s')) :
    s.Room (.element Attrs.none .none) ∧ ∃ k, s' = s.after k (.element Attrs.none .none) := by
  rw [startTag, run_bind_eq_ok] at h
  obtain ⟨⟨⟩, s₁, henter, h⟩ := h
  obtain ⟨rfl, helements, hdepth⟩ := of_enter henter
  rw [run_modify_bind, run_get_bind, if_pos rfl] at h
  split at h
  · cases h
  cases h
  refine ⟨⟨?_, ?_, ?_, ?_⟩, (s.rest.drop (1 + Tag.br.name.length)).tail, ?_⟩
  · simpa [Extent.element, Extent.none] using helements
  · simpa [Extent.element, Extent.none] using hdepth
  · simpa [Extent.element, Attrs.none] using hroom.unique
  · simp [Extent.element, Extent.none, Attrs.none]
  · simp [after, Extent.element, Extent.none, Attrs.none]

theorem of_endTag (h : endTag tag s = .ok ((), s')) : ∃ k, s' = s.left k := by
  rw [endTag, run_modify_bind, run_get_bind] at h
  split at h
  · cases h
  · cases h
    exact ⟨_, rfl⟩

/-- A part of this extent was read, and there was room for it. -/
def Read (s s' : Parser) (e : Extent) : Prop := s.Room e ∧ ∃ k, s' = s.after k e

theorem read_none (hroom : s.Room .none) : Read s s .none := ⟨hroom, _, after_none.symm⟩

theorem Read.room (h : Read s s' e) : s'.Room .none := by
  obtain ⟨hroom, k, rfl⟩ := h
  have hboth : s.Room (e.append .none) := by simpa [Extent.append, Extent.none] using hroom
  exact (room_append.mp hboth).2

/-- One part after another. -/
theorem Read.trans {a b : Extent} (ha : Read s s₁ a) (hb : Read s₁ s' b) :
    Read s s' (a.append b) := by
  obtain ⟨haroom, k, rfl⟩ := ha
  obtain ⟨hbroom, k', rfl⟩ := hb
  exact ⟨room_append.mpr ⟨haroom, hbroom⟩, k', after_after⟩

theorem Read.trans_moved (h : Read s s₁ e) (hmoved : Moved s₁ s') : Read s s' e :=
  ⟨h.1, hmoved.after_eq h.2.choose_spec⟩

theorem Moved.trans_read (hmoved : Moved s s₁) (h : Read s₁ s' e) : Read s s' e := by
  obtain ⟨k, rfl⟩ := hmoved
  obtain ⟨hroom, k', rfl⟩ := h
  rw [after_none] at hroom ⊢
  exact ⟨⟨hroom.elements, hroom.depth, hroom.unique, hroom.ids⟩, k', rfl⟩

/-- An element around content that was read inside it. -/
theorem Read.element (hinside : s₁ = s.inside tag attrs k) (hform : ∀ id ∈ attrs.id, IdForm id)
    (hread : Read s₁ s₂ e) (h : endTag tag s₂ = .ok ((), s')) : Read s s' (.element attrs e) := by
  subst hinside
  obtain ⟨hroom, k', rfl⟩ := hread
  obtain ⟨k'', rfl⟩ := of_endTag h
  exact ⟨room_element.mpr ⟨hroom, hform⟩, k'', left_after_inside⟩

/-! ## Leaves -/

/-- What a run of inline content gives. -/
structure InlinesRead (s s' : Parser) (flow flow' : Flow) (content : Inlines) : Prop where
  read : Read s s' content.extent
  formed : content.Formed
  notText : s.rest = [] ∨ s.rest.head? = some '<' → content.startsWithText = false
  reads : ∀ before, flow.After before → Begun before →
    flow'.After (before ++ content.flatten) ∧ Begun (before ++ content.flatten)

theorem of_nonEmpty {loop : Parse (Inlines × Flow)}
    (h : nonEmpty loop s = .ok ((content, flow), s')) :
    loop s = .ok ((content, flow), s') ∧ content ≠ .nil := by
  rw [nonEmpty, run_bind_eq_ok] at h
  obtain ⟨⟨out, flow'⟩, s₁, hloop, h⟩ := h
  dsimp only at h
  split at h
  · cases h
  · rename_i hne
    cases h
    exact ⟨hloop, hne⟩

theorem inlinesRead_of_inlinesLoop {parent : Tag} (hroom : s.Room .none)
    (h : inlinesLoop fuel parent flow s = .ok ((content, flow'), s')) :
    InlinesRead s s' flow flow' content := by
  induction fuel generalizing s s' parent flow flow' content with
  | zero => cases h
  | succ fuel ih =>
    rw [inlinesLoop, run_get_bind] at h
    cases hpeek : s.peek with
    | eof =>
      rw [hpeek] at h
      cases h
    | stop name =>
      rw [hpeek] at h
      dsimp only at h
      split at h
      · cases h
        exact ⟨read_none hroom, trivial, fun _ => rfl, by simp +contextual [Inlines.flatten]⟩
      · cases h
    | text =>
      rw [hpeek] at h
      dsimp only at h
      split at h
      · cases h
      rename_i hhead
      obtain ⟨⟨t, flow₁⟩, s₁, hrun, h⟩ := run_bind_eq_ok.mp h
      obtain ⟨⟨rest, flow₂⟩, s₂, hloop, h⟩ := run_bind_eq_ok.mp h
      cases h
      have hne : s.rest ≠ [] := by
        intro hnil
        simp [peek, hnil] at hpeek
      have htext := textRead_of_textRun (Nat.le_refl _) hrun
      have hrest := ih (hroom.of_moved htext.moved) hloop
      refine ⟨htext.moved.trans_read hrest.read, ⟨htext.notEmpty hne hhead,
        hrest.notText htext.stops, hrest.formed⟩, ?_, ?_⟩
      · rintro (hnil | hlt)
        · exact absurd hnil hne
        · exact absurd hlt hhead
      · intro before hafter hbegun
        obtain ⟨hafter₁, hbegun₁⟩ := htext.reads before hafter hbegun
        simpa [Inlines.flatten] using hrest.reads _ hafter₁ hbegun₁
    | start name =>
      rw [hpeek] at h
      cases name with
      | other => cases h
      | tag t =>
        dsimp only at h
        split at h
        · obtain ⟨flow₁, hbr, h⟩ := ok_of_run_lift_bind h
          obtain ⟨attrs, s₂, hstart, h⟩ := run_bind_eq_ok.mp h
          obtain ⟨⟨rest, flow₂⟩, s₃, hloop, h⟩ := run_bind_eq_ok.mp h
          cases h
          have hread : Read s s₂ _ := of_startTag_br hroom hstart
          have hrest := ih hread.room hloop
          refine ⟨hread.trans hrest.read, hrest.formed, fun _ => rfl, ?_⟩
          intro before hafter hbegun
          obtain ⟨hafter₁, hbegun₁⟩ := hafter.of_br hbegun hbr
          simpa [Inlines.flatten] using hrest.reads _ hafter₁ hbegun₁
        · rename_i hnotBr
          cases hspan : spanTag? t with
          | none =>
            rw [hspan] at h
            cases h
          | some tag =>
            rw [hspan] at h
            obtain ⟨attrs, s₁, hstart, h⟩ := run_bind_eq_ok.mp h
            obtain ⟨⟨inner, flow₁⟩, s₂, hinner, h⟩ := run_bind_eq_ok.mp h
            obtain ⟨⟨⟩, s₃, hend, h⟩ := run_bind_eq_ok.mp h
            obtain ⟨⟨rest, flow₂⟩, s₄, hloop, h⟩ := run_bind_eq_ok.mp h
            cases h
            obtain ⟨hinner, hne⟩ := of_nonEmpty hinner
            obtain ⟨k, hs₁, hroom₁, hform⟩ := of_startTag hnotBr hroom hstart
            have hread := ih hroom₁ hinner
            have helement := Read.element hs₁ hform hread.read hend
            have hrest := ih helement.room hloop
            refine ⟨helement.trans hrest.read, ⟨hne, hread.formed, hrest.formed⟩, fun _ => rfl, ?_⟩
            intro before hafter hbegun
            obtain ⟨hafter₁, hbegun₁⟩ := hread.reads before hafter hbegun
            simpa [Inlines.flatten] using hrest.reads _ hafter₁ hbegun₁

/-- A leaf that was read. -/
theorem read_of_leaf {l : Leaf} (htag : tag ≠ .br) (hroom : s.Room .none)
    (h : leaf fuel tag s = .ok (l, s')) : Read s s' l.extent ∧ l.Formed := by
  rw [leaf, run_bind_eq_ok] at h
  obtain ⟨attrs, s₁, hstart, h⟩ := h
  obtain ⟨⟨content, flow⟩, s₂, hinlines, h⟩ := run_bind_eq_ok.mp h
  dsimp only at h
  rw [run_get_bind] at h
  obtain ⟨⟨⟩, hfinish, h⟩ := ok_of_run_lift_bind h
  obtain ⟨⟨⟩, s₄, hend, h⟩ := run_bind_eq_ok.mp h
  obtain ⟨⟨⟩, s₅, hlf, h⟩ := run_bind_eq_ok.mp h
  cases h
  obtain ⟨hloop, hne⟩ := of_nonEmpty hinlines
  obtain ⟨k, hs₁, hroom₁, hform⟩ := of_startTag htag hroom hstart
  have hread := inlinesRead_of_inlinesLoop hroom₁ hloop
  obtain ⟨hafter, hbegun⟩ := hread.reads [] after_new begun_nil
  have hlast := (hafter.finish_eq_ok _).mp hfinish
  exact ⟨(Read.element hs₁ hform hread.read hend).trans_moved (moved_of_optionalLf hlf),
    hne, hread.formed, { toBegun := hbegun, noTrailing := hlast }⟩

/-! ## Lists, blocks and containers -/

theorem of_closing {items : List α} (h : closing tag loop s = .ok (items, s')) :
    items ≠ [] ∧ ∃ s₁ s₂, loop s = .ok (items, s₁) ∧ endTag tag s₁ = .ok ((), s₂) ∧
      Moved s₂ s' := by
  rw [closing, run_bind_eq_ok] at h
  obtain ⟨items', s₁, hloop, h⟩ := h
  split at h
  · cases h
  rename_i hne
  obtain ⟨⟨⟩, s₂, hend, h⟩ := run_bind_eq_ok.mp h
  obtain ⟨⟨⟩, s₃, hlf, h⟩ := run_bind_eq_ok.mp h
  cases h
  exact ⟨by simpa using hne, s₁, s₂, hloop, hend, moved_of_optionalLf hlf⟩

/-- A list or container whose children were read inside it. -/
theorem read_of_container {next : Attrs → List α → Parse β} {extent : List α → Extent}
    {P : List α → Prop} (htag : tag ≠ .br) (hroom : s.Room .none)
    (h : (do
      let attrs ← startTag tag
      optionalLf
      let items ← closing tag loop
      next attrs items) s = .ok (b, s'))
    (hloop : ∀ {s₂ s₃ items}, s₂.Room .none → loop s₂ = .ok (items, s₃) →
      Read s₂ s₃ (extent items) ∧ P items) :
    ∃ attrs items s₁, Read s s₁ (.element attrs (extent items)) ∧ items ≠ [] ∧ P items ∧
      next attrs items s₁ = .ok (b, s') := by
  obtain ⟨attrs, s₁, hstart, h⟩ := run_bind_eq_ok.mp h
  obtain ⟨⟨⟩, s₂, hlf, h⟩ := run_bind_eq_ok.mp h
  obtain ⟨items, s₅, hclosing, h⟩ := run_bind_eq_ok.mp h
  obtain ⟨k, hs₁, hroom₁, hform⟩ := of_startTag htag hroom hstart
  have hmoved := moved_of_optionalLf hlf
  obtain ⟨hne, s₃, s₄, hitems, hend, hmoved'⟩ := of_closing hclosing
  obtain ⟨hread, hP⟩ := hloop (hroom₁.of_moved hmoved) hitems
  have helement := Read.element hs₁ hform (hmoved.trans_read hread) hend
  exact ⟨attrs, items, s₅, helement.trans_moved hmoved', hne, hP, h⟩

theorem read_of_itemsLoop {items : List Leaf} (hroom : s.Room .none)
    (h : itemsLoop fuel tag s = .ok (items, s')) :
    Read s s' (.concat (items.map Leaf.extent)) ∧ ∀ item ∈ items, item.Formed := by
  induction fuel generalizing s items with
  | zero => cases h
  | succ fuel ih =>
    rw [itemsLoop, run_get_bind] at h
    cases hpeek : s.peek with
    | eof | text =>
      rw [hpeek] at h
      cases h
    | stop name =>
      rw [hpeek] at h
      dsimp only at h
      split at h
      · cases h
        exact ⟨read_none hroom, by simp⟩
      · cases h
    | start name =>
      rw [hpeek] at h
      dsimp only at h
      split at h
      · obtain ⟨item, s₁, hleaf, h⟩ := run_bind_eq_ok.mp h
        obtain ⟨rest, s₂, hloop, h⟩ := run_bind_eq_ok.mp h
        cases h
        obtain ⟨hread, hformed⟩ := read_of_leaf (by decide) hroom hleaf
        obtain ⟨hrest, hall⟩ := ih hread.room hloop
        exact ⟨hread.trans hrest, by simpa using ⟨hformed, hall⟩⟩
      · cases h

theorem read_of_block {tag : TextTag ⊕ ListTag} {b : Block} (hroom : s.Room .none)
    (h : block fuel tag s = .ok (b, s')) : Read s s' b.extent ∧ b.Formed := by
  cases tag with
  | inl t =>
    rw [block, run_bind_eq_ok] at h
    obtain ⟨l, s₁, hleaf, h⟩ := h
    cases h
    exact read_of_leaf (by cases t <;> decide) hroom hleaf
  | inr t =>
    rw [block, run_bind_eq_ok] at h
    obtain ⟨l, s₁, hlist, h⟩ := h
    cases h
    obtain ⟨attrs, items, s₂, hread, hne, hformed, hlist⟩ :=
      read_of_container (by cases t <;> decide) hroom hlist read_of_itemsLoop
    cases hlist
    exact ⟨hread, hne, hformed⟩

/-- The children that are blocks, all of them. -/
theorem map_blocksOf (h : ∀ item ∈ items, ∃ b, item = .block b) :
    (blocksOf items).map MainItem.block = items := by
  induction items with
  | nil => rfl
  | cons item items ih =>
    obtain ⟨b, rfl⟩ := h item (by simp)
    simpa [blocksOf] using ih fun item hitem => h item (by simp [hitem])

/-- What the loop of `children` gives. -/
structure ChildrenRead (s s' : Parser) (sections : Bool) (items : List MainItem) : Prop where
  read : Read s s' (.concat (items.map MainItem.extent))
  formed : ∀ item ∈ items, item.Formed
  blocks : sections = false → ∀ item ∈ items, ∃ b, item = .block b

theorem childrenRead_cons {item : MainItem} (hread : Read s s₁ item.extent) (hformed : item.Formed)
    (hblock : sections = false → ∃ b, item = .block b) (hrest : ChildrenRead s₁ s' sections items) :
    ChildrenRead s s' sections (item :: items) :=
  ⟨hread.trans hrest.read, by simpa using ⟨hformed, hrest.formed⟩,
    fun h => by simpa using ⟨hblock h, hrest.blocks h⟩⟩

/-- A section, a header or a footer: a container whose children are all blocks. -/
theorem read_of_blocks {next : Attrs → List MainItem → Parse β} {loop : Parse (List MainItem)}
    (htag : tag ≠ .br) (hroom : s.Room .none)
    (h : (do
      let attrs ← startTag tag
      optionalLf
      let items ← closing tag loop
      next attrs items) s = .ok (b, s'))
    (hloop : ∀ {s₂ s₃ items}, s₂.Room .none → loop s₂ = .ok (items, s₃) →
      ChildrenRead s₂ s₃ false items) :
    ∃ attrs items s₁, Read s s₁ (blocksExtent attrs (blocksOf items)) ∧
      BlocksFormed (blocksOf items) ∧ next attrs items s₁ = .ok (b, s') := by
  obtain ⟨attrs, items, s₁, hread, hne, ⟨hformed, hblocks⟩, h⟩ :=
    read_of_container htag hroom h fun hroom' hitems =>
      have hchildren := hloop hroom' hitems
      ⟨hchildren.read, And.intro hchildren.formed (hchildren.blocks rfl)⟩
  have hmap := map_blocksOf hblocks
  refine ⟨attrs, items, s₁, ?_, ⟨fun hnil => hne ?_, fun b hb => ?_⟩, h⟩
  · rw [← hmap, map_map] at hread
    exact hread
  · rw [← hmap, hnil, map_nil]
  · exact hformed (.block b) (hmap ▸ mem_map_of_mem hb)

theorem childrenRead_of_childrenLoop {container : Tag} (hroom : s.Room .none)
    (h : childrenLoop fuel container sections s = .ok (items, s')) :
    ChildrenRead s s' sections items := by
  induction fuel generalizing s s' container sections items with
  | zero => cases h
  | succ fuel ih =>
    rw [childrenLoop, run_get_bind] at h
    cases hpeek : s.peek with
    | eof | text =>
      rw [hpeek] at h
      cases h
    | stop name =>
      rw [hpeek] at h
      dsimp only at h
      split at h
      · cases h
        exact ⟨read_none hroom, by simp, by simp⟩
      · cases h
    | start name =>
      rw [hpeek] at h
      cases name with
      | other => cases h
      | tag t =>
        dsimp only at h
        split at h
        · rename_i hsection
          obtain ⟨attrs, inner, s₁, hread, hformed, h⟩ := read_of_blocks (by decide) hroom h ih
          obtain ⟨rest, s₂, hloop, h⟩ := run_bind_eq_ok.mp h
          cases h
          refine childrenRead_cons hread hformed ?_ (ih hread.room hloop)
          simp only [Bool.and_eq_true] at hsection
          simp [hsection.2]
        · cases hblock : blockTag? t with
          | none =>
            rw [hblock] at h
            cases h
          | some tag =>
            rw [hblock] at h
            obtain ⟨b, s₁, hb, h⟩ := run_bind_eq_ok.mp h
            obtain ⟨rest, s₂, hloop, h⟩ := run_bind_eq_ok.mp h
            cases h
            obtain ⟨hread, hformed⟩ := read_of_block hroom hb
            exact childrenRead_cons hread hformed (fun _ => ⟨b, rfl⟩) (ih hread.room hloop)

/-- What an optional region gives. -/
theorem read_of_optionalRegion {r : Option Region} (htag : tag ≠ .br) (hroom : s.Room .none)
    (h : optionalRegion fuel tag s = .ok (r, s')) :
    Read s s' (regionExtent r) ∧ ∀ r', r = some r' → BlocksFormed r'.blocks := by
  rw [optionalRegion, run_get_bind] at h
  split at h
  · obtain ⟨region, s₁, hregion, h⟩ := run_bind_eq_ok.mp h
    cases h
    obtain ⟨attrs, items, s₂, hread, hformed, hregion⟩ :=
      read_of_blocks htag hroom hregion childrenRead_of_childrenLoop
    cases hregion
    exact ⟨hread, by simpa using hformed⟩
  · cases h
    exact ⟨read_none hroom, by simp⟩

theorem read_of_main {m : Main} (hroom : s.Room .none) (h : main fuel s = .ok (m, s')) :
    Read s s' (.element m.attrs (.concat (m.items.map MainItem.extent))) ∧
      m.items ≠ [] ∧ ∀ item ∈ m.items, item.Formed := by
  obtain ⟨attrs, items, s₁, hread, hne, hformed, h⟩ :=
    read_of_container (by decide) hroom h fun hroom' hloop =>
      have hread := childrenRead_of_childrenLoop hroom' hloop
      ⟨hread.read, hread.formed⟩
  cases h
  exact ⟨hread, hne, hformed⟩

/-! ## The document -/

theorem langForm_of_langOk (h : langOk lang = true) : LangForm lang := by
  unfold langOk at h
  split at h
  · exact .inl ⟨_, _, rfl, by simpa using h⟩
  · exact .inr ⟨_, _, _, _, rfl, by simpa [and_assoc] using h⟩
  · cases h

theorem of_lang (h : Parser.lang s = .ok (lang, s')) : Moved s s' ∧ LangForm lang := by
  rw [Parser.lang, run_get_bind] at h
  split at h
  · cases h
  rename_i hok
  cases h
  exact ⟨⟨_, after_none.symm⟩, langForm_of_langOk (by simpa using hok)⟩

theorem of_title (h : Parser.title s = .ok (title, s')) :
    Moved s s' ∧ WellSpaced title ∧ 1 ≤ title.length ∧ title.length ≤ maxTitleChars := by
  rw [Parser.title, run_get_bind, run_bind_eq_ok] at h
  obtain ⟨⟨title', flow⟩, s₁, hrun, h⟩ := h
  dsimp only at h
  rw [run_get_bind] at h
  have htext := textRead_of_textRun (Nat.le_refl _) hrun
  -- a start tag at the cursor is refused; everything else goes on to the end of the title
  have hend : (if flow.chars = 0 then fail .titleInvalid s₁.pos
      else do
        flow.finish s₁.pos
        return title' : Parse Text) s₁ = .ok (title, s') := by
    cases hpeek : s₁.peek with
    | start name =>
      rw [hpeek] at h
      cases h
    | stop name | text | eof =>
      rw [hpeek] at h
      exact h
  split at hend
  · cases hend
  rename_i hchars
  obtain ⟨⟨⟩, hfinish, hend⟩ := ok_of_run_lift_bind hend
  cases hend
  obtain ⟨hafter, hbegun⟩ := htext.reads [] after_new begun_nil
  have hcount : flow.chars = title.length := by simpa [Flow.new] using htext.chars
  have hne : title ≠ [] := fun hnil => hchars (by rw [hcount, hnil, length_nil])
  refine ⟨htext.moved, { toBegun := hbegun, noTrailing := (hafter.finish_eq_ok _).mp hfinish },
    length_pos_iff.mpr hne, ?_⟩
  rw [← hcount]
  exact htext.cap rfl hne

theorem moved_of_css (h : css s = .ok ((), s')) : Moved s s' := by
  rw [css, run_get_bind] at h
  split at h
  · cases h
  · cases h
    exact ⟨_, after_none.symm⟩

theorem wellFormed_of_body (hempty : s.openTags = [] ∧ s.elements = 0 ∧ s.ids = [])
    (hlang : LangForm lang) (htitle : WellSpaced title)
    (hchars : 1 ≤ title.length ∧ title.length ≤ maxTitleChars)
    (h : body fuel lang title s = .ok (page, s')) : page.WellFormed := by
  obtain ⟨hopen, helements, hids⟩ := hempty
  have hroom : s.Room .none := ⟨by simp [helements, Extent.none], by simp [hopen, Extent.none],
    by simp [hids, Extent.none], by simp [Extent.none]⟩
  rw [body, run_bind_eq_ok] at h
  obtain ⟨header, s₁, hheader, h⟩ := h
  rw [run_get_bind] at h
  split at h
  · cases h
  obtain ⟨m, s₂, hmain, h⟩ := run_bind_eq_ok.mp h
  obtain ⟨footer, s₃, hfooter, h⟩ := run_bind_eq_ok.mp h
  obtain ⟨⟨⟩, s₄, hfinish, h⟩ := run_bind_eq_ok.mp h
  cases h
  obtain ⟨hreadHeader, hheaderBlocks⟩ := read_of_optionalRegion (by decide) hroom hheader
  obtain ⟨hreadMain, hmainItems⟩ := read_of_main hreadHeader.room hmain
  obtain ⟨hreadFooter, hfooterBlocks⟩ := read_of_optionalRegion (by decide) hreadMain.room hfooter
  obtain ⟨hall, -⟩ := hreadHeader.trans (hreadMain.trans hreadFooter)
  exact
    { lang := hlang
      title := htitle
      titleChars := hchars
      header := hheaderBlocks
      main := hmainItems
      footer := hfooterBlocks
      ids := hall.ids
      uniqueIds := by simpa [hids, Page.extent] using hall.unique
      elements := by simpa [helements, Page.extent] using hall.elements
      depth := by simpa [hopen, Page.extent] using hall.depth }

theorem wellFormed_of_document (hempty : s.openTags = [] ∧ s.elements = 0 ∧ s.ids = [])
    (h : document fuel s = .ok (page, s')) : page.WellFormed := by
  rw [document, run_bind_eq_ok] at h
  obtain ⟨⟨⟩, s₁, hhead, h⟩ := h
  obtain ⟨lang, s₂, hlang, h⟩ := run_bind_eq_ok.mp h
  obtain ⟨⟨⟩, s₃, hafterLang, h⟩ := run_bind_eq_ok.mp h
  obtain ⟨title, s₄, htitle, h⟩ := run_bind_eq_ok.mp h
  obtain ⟨⟨⟩, s₅, hafterTitle, h⟩ := run_bind_eq_ok.mp h
  obtain ⟨⟨⟩, s₆, hcss, h⟩ := run_bind_eq_ok.mp h
  obtain ⟨⟨⟩, s₇, hafterCss, h⟩ := run_bind_eq_ok.mp h
  obtain ⟨hmovedLang, hlangForm⟩ := of_lang hlang
  obtain ⟨hmovedTitle, hspaced, hchars⟩ := of_title htitle
  -- nothing of the body was read yet
  have hmoved : ∃ k, s₇ = s.after k .none := by
    have h₁ := (moved_of_fixed hhead)
    have h₂ := hmovedLang.after_eq h₁.choose_spec
    have h₃ := (moved_of_fixed hafterLang).after_eq h₂.choose_spec
    have h₄ := hmovedTitle.after_eq h₃.choose_spec
    have h₅ := (moved_of_fixed hafterTitle).after_eq h₄.choose_spec
    have h₆ := (moved_of_css hcss).after_eq h₅.choose_spec
    exact (moved_of_fixed hafterCss).after_eq h₆.choose_spec
  obtain ⟨k, rfl⟩ := hmoved
  refine wellFormed_of_body ?_ hlangForm hspaced hchars h
  rw [after_none]
  exact hempty

end Parser

/-- A page that was parsed obeys the grammar. -/
theorem wellFormed_of_parseDocument (h : parseDocument text = .ok page) : page.WellFormed := by
  unfold parseDocument at h
  dsimp only at h
  cases hdoc : Parser.document (text.length + 1)
      { text, rest := text, openTags := [], elements := 0, ids := [] } with
  | error e =>
    rw [hdoc] at h
    cases h
  | ok out =>
    rw [hdoc] at h
    cases h
    exact Parser.wellFormed_of_document ⟨rfl, rfl, rfl⟩ hdoc

end NexusOs.InertPage

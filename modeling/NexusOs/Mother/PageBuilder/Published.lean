import NexusOs.Mother.PageBuilder.Assembled

/-!
# What the Builder publishes

Over any sequence of answers the Builder asks for at most one file, within its first two answers;
and a file it asks for passes every check of the Verifier.
-/

namespace NexusOs.PageBuilder

open Framing Utf8 InertPage Verifier List BuildStep Builder

variable {fromStr : Text → Option PageDraft} {l : Letters} {facts : ApprovedFacts}

theorem code_ne_assemblerFault (d : PageDraft) : d.code ≠ some .assemblerFault := by
  unfold PageDraft.code
  iterate 6 split <;> [simp; skip]
  simp

/-- The requests for an answer: a code that is no fault of the assembler, or one file. -/
theorem requestsOf_cases (fromStr : Text → Option PageDraft)
    (hready : factsPageReady l facts = true) (answer : Text) :
    (∃ code, requestsOf fromStr l facts answer = .error code ∧ code ≠ .assemblerFault) ∨
      ∃ content page, requestsOf fromStr l facts answer = .ok (createFile content) ∧
        Assembled l facts content page := by
  unfold requestsOf
  cases hparse : parseDraft fromStr answer with
  | error code =>
    refine .inl ⟨code, rfl, ?_⟩
    rintro rfl
    unfold parseDraft at hparse
    split at hparse
    · cases hparse
    split at hparse
    · rename_i hcode
      cases hparse
      exact code_ne_assemblerFault _ hcode
    · cases hparse
  | ok d =>
    have hd := accepted_of_parseDraft hparse
    unfold fileRequests
    rcases assemble_cases hready hd with ⟨code, hcode, hmem⟩ | ⟨content, page, hok, hfile⟩
    · simp only [hcode]
      refine .inl ⟨code, rfl, ?_⟩
      rintro rfl
      simp at hmem
    · simp only [hok, fromUtf8_encode]
      exact .inr ⟨content, page, rfl, hfile⟩

/-- The facts as a reader sees them: the name as the title and the only `h1`, every hours line as
an item or paragraph of its own, the phone with no digit beside it. -/
structure Shown (text : VisibleText) (facts : ApprovedFacts) : Prop where
  title : text.title = facts.name
  heading : (text.lines.filter fun line => line.tag = .h1).map VisibleLine.text = [facts.name]
  hours : ∀ shown ∈ facts.hours, ∃ line ∈ text.lines,
    (line.tag = .li ∨ line.tag = .p) ∧ line.text = shown
  phone : ∃ line ∈ text.lines, showsUnglued line.text facts.phone = true

theorem shown_of_visibleFacts {text : VisibleText}
    (h : (visibleFacts text facts).firstError = none) : Shown text facts := by
  obtain ⟨-, hname, hhours, hphone⟩ := visible_firstError_eq_none.mp h
  simp only [visibleFacts, Bool.and_eq_true, decide_eq_true_eq] at hname
  obtain ⟨hheading, htitle⟩ := hname
  refine ⟨htitle, ?_, fun shown hshown => ?_, any_eq_true.mp hphone⟩
  · split at hheading
    · rename_i only honly
      rw [honly, map_singleton, of_decide_eq_true hheading]
    · cases hheading
  · have hline := hhours _ (mem_map.mpr ⟨shown, hshown, rfl⟩)
    simpa using hline

/-- An assembled file passes all six checks with its own receipt, and shows the facts. -/
theorem Assembled.verified {content : Text} {page : Page} (h : Assembled l facts content page)
    (d : Digests) :
    (verifyPage d l (encode content) facts (some (receiptOf d (encode content)))).passed = true ∧
      ∃ text, readVisibleText (encode content) = some text ∧ Shown text facts := by
  constructor
  · refine all_eq_true.mpr fun id _ => decide_eq_true ?_
    by_cases hid : id = .v5
    · subst hid
      rw [verifyPage, gates_of_check d h.check]
      simp [h.email, CheckResult.of]
    · exact checks_of_checkFacts d l h.check h.facts hid
  · obtain ⟨text, hread, -⟩ := agrees_of_check h.check
    have hvisible := visibleReport_of_checkFacts h.check h.facts
    rw [visibleReport, hread] at hvisible
    exact ⟨text, hread, shown_of_visibleFacts hvisible⟩

/-! ## Runs of the Builder -/

/-- What one answer does to a Builder that is not done. -/
theorem answer_cases (hready : factsPageReady l facts = true) {b : Builder}
    (hdone : b.done = false) (answer : Text) :
    (∃ content page b', b.answer fromStr l facts answer = (.file (createFile content), b') ∧
        b'.done = true ∧ Assembled l facts content page) ∨
      (∃ code b', b.answer fromStr l facts answer = (.failed code, b') ∧ b'.done = true ∧
        code ≠ .assemblerFault) ∨
      ∃ text b', b.answer fromStr l facts answer = (.correction text, b') ∧ b.attempts = 0 ∧
        b'.attempts = 1 ∧ b'.done = false := by
  unfold Builder.answer
  simp only [hdone, Bool.false_eq_true, if_false]
  rcases requestsOf_cases fromStr hready answer with
    ⟨code, hcode, hfault⟩ | ⟨content, page, hok, hfile⟩
  · simp only [hcode]
    split
    · rename_i text htext
      split at htext
      · have hfirst : b.attempts = 0 := by omega
        exact .inr (.inr ⟨text, _, rfl, hfirst, by simp [hfirst], rfl⟩)
      · cases htext
    · exact .inr (.inl ⟨code, _, rfl, rfl, hfault⟩)
  · simp only [hok]
    exact .inl ⟨content, page, _, rfl, rfl, hfile⟩

theorem steps_cons {b b' : Builder} {step : BuildStep} {answer : Text}
    (h : b.answer fromStr l facts answer = (step, b')) (answers : List Text) :
    b.steps fromStr l facts (answer :: answers) = step :: b'.steps fromStr l facts answers := by
  simp [steps, h]

theorem steps_of_done {b : Builder} (h : b.done = true) (answers : List Text) :
    ∀ step ∈ b.steps fromStr l facts answers, step = .closed := by
  induction answers with
  | nil => simp [steps]
  | cons answer answers ih =>
    have hanswer : b.answer fromStr l facts answer = (.closed, b) := by simp [Builder.answer, h]
    simpa [steps, hanswer] using ih

/-- A step asks for a file. -/
def BuildStep.isFile : BuildStep → Bool
  | .file _ => true
  | _ => false

/-- What holds of every step of a run: its file was assembled, and it is no assembler fault. -/
def BuildStep.Sound (l : Letters) (facts : ApprovedFacts) : BuildStep → Prop
  | .file files => ∃ content page, files = createFile content ∧ Assembled l facts content page
  | .failed code => code ≠ .assemblerFault
  | .correction _ | .closed => True

theorem sound_of_closed {steps : List BuildStep} (h : ∀ step ∈ steps, step = .closed) :
    (∀ step ∈ steps, step.Sound l facts) ∧ steps.countP isFile = 0 ∧
      ∀ (i : Nat) files, steps[i]? ≠ some (file files) := by
  refine ⟨fun step hstep => ?_, ?_, fun i files hfile => ?_⟩
  · rw [h step hstep]
    trivial
  · refine countP_eq_zero.mpr fun step hstep => ?_
    simp [h step hstep, isFile]
  · cases h _ (mem_of_getElem? hfile)

/-- The steps of a run are sound; there is at most one file, while an attempt is left. -/
theorem steps_sound (fromStr : Text → Option PageDraft) (hready : factsPageReady l facts = true)
    (b : Builder) (answers : List Text) :
    (∀ step ∈ b.steps fromStr l facts answers, step.Sound l facts) ∧
      (b.steps fromStr l facts answers).countP isFile ≤ 1 ∧
      ∀ (i : Nat) files, (b.steps fromStr l facts answers)[i]? = some (file files) →
        i = 0 ∨ i = 1 ∧ b.attempts = 0 := by
  induction answers generalizing b with
  | nil => simp [steps]
  | cons answer answers ih =>
    cases hdone : b.done with
    | true =>
      obtain ⟨hsound, hcount, hnone⟩ :=
        sound_of_closed (l := l) (steps_of_done hdone (answer :: answers))
      exact ⟨hsound, hcount ▸ Nat.zero_le 1, fun i files h => absurd h (hnone i files)⟩
    | false =>
      rcases answer_cases hready hdone answer with
        ⟨content, page, b', heq, hdone', hfile⟩ | ⟨code, b', heq, hdone', hcode⟩ |
        ⟨text, b', heq, hfirst, hsecond, -⟩
      -- after a file or a failure the Builder is done; after a correction one attempt is left
      · obtain ⟨hsound, hcount, hnone⟩ := sound_of_closed (l := l) (steps_of_done hdone' answers)
        rw [steps_cons heq]
        refine ⟨forall_mem_cons.mpr ⟨⟨content, page, rfl, hfile⟩, hsound⟩, ?_, ?_⟩
        · rw [countP_cons, hcount]
          simp [isFile]
        · rintro (_ | i) files h
          · exact .inl rfl
          · exact absurd h (hnone i files)
      · obtain ⟨hsound, hcount, hnone⟩ := sound_of_closed (l := l) (steps_of_done hdone' answers)
        rw [steps_cons heq]
        refine ⟨forall_mem_cons.mpr ⟨hcode, hsound⟩, ?_, ?_⟩
        · simp [isFile, hcount]
        · rintro (_ | i) files h
          · exact .inl rfl
          · exact absurd h (hnone i files)
      · obtain ⟨hsound, hcount, hplace⟩ := ih b'
        rw [steps_cons heq]
        refine ⟨forall_mem_cons.mpr ⟨trivial, hsound⟩, ?_, ?_⟩
        · simpa [isFile] using hcount
        rintro (_ | i) files h
        · exact .inl rfl
        · rcases hplace i files h with rfl | ⟨-, hzero⟩
          · exact .inr ⟨rfl, hfirst⟩
          · omega

/-- Every file the Builder asks for passes the Verifier: at most one, within two answers, never
after a fault of the assembler. -/
theorem builder_publishes_only_verified_pages (fromStr : Text → Option PageDraft) (l : Letters)
    (d : Digests) (facts : ApprovedFacts) (hready : factsPageReady l facts = true)
    (answers : List Text) :
    (default.steps fromStr l facts answers).countP isFile ≤ 1 ∧
      (∀ (i : Nat) files, (default.steps fromStr l facts answers)[i]? =
          some (file files) →
        i < 2 ∧ ∃ content : Text,
          files = [.createFile "index.html" (String.ofList content)] ∧
          (encode content).length ≤ 8192 ∧ lineCount content ≤ 150 ∧
          (verifyPage d l (encode content) facts
            (some (receiptOf d (encode content)))).passed = true ∧
          ∃ text, readVisibleText (encode content) = some text ∧ Shown text facts) ∧
      failed .assemblerFault ∉ default.steps fromStr l facts answers ∧
      ∀ answer draft code, parseDraft fromStr answer = .ok draft →
        assemble l draft facts = .error code →
        code ∈ [DraftCode.foreignNumber, .email, .tooLarge] := by
  obtain ⟨hsound, hcount, hplace⟩ := steps_sound fromStr hready .default answers
  refine ⟨hcount, fun i files hfile => ⟨?_, ?_⟩, fun hfault => hsound _ hfault rfl,
    fun answer draft code hparse hcode => ?_⟩
  · rcases hplace i files hfile with rfl | ⟨rfl, -⟩ <;> omega
  · obtain ⟨content, page, rfl, hassembled⟩ := hsound _ (mem_of_getElem? hfile)
    refine ⟨content, rfl, ?_, hassembled.lines, hassembled.verified d⟩
    rw [length_encode]
    exact hassembled.size
  · rcases assemble_cases hready (accepted_of_parseDraft hparse) with
      ⟨code', hcode', hmem⟩ | ⟨content, page, hok, -⟩
    · rw [hcode] at hcode'
      cases hcode'
      exact hmem
    · rw [hcode] at hok
      cases hok

/-! ## Facts that are ready -/

theorem fixedDraft_accepted : Accepted fixedDraft where
  texts := by
    have htexts : fixedDraft.texts =
        ["Welcome.".toList, "About us".toList, "Visit us.".toList, "Thank you.".toList] := rfl
    rw [htexts]
    intro t ht
    simp only [mem_cons, not_mem_nil, or_false] at ht
    rcases ht with rfl | rfl | rfl | rfl
    all_goals exact pageText_of_short (by decide) (by decide) (by decide) (by decide)
  small := by decide

/-- Facts fit for a page are ready if they hold no other number and no email address. -/
theorem factsPageReady_of (hfit : Fit facts)
    (hnumber : (factsReport (pageOf fixedDraft facts) facts).noForeignNumber = true)
    (hemail : emailScan l (pageOf fixedDraft facts) = false) : factsPageReady l facts = true := by
  have hcheck := check_pageOf hfit fixedDraft_accepted
  have hbuilt : buildPage fixedDraft facts = .ok (pageOf fixedDraft facts) :=
    buildPage_eq_ok.mpr ⟨rfl, hcheck⟩
  have hfacts : checkFacts (pageOf fixedDraft facts) facts = .ok () := by
    rw [checkFacts_pageOf, hnumber, if_pos rfl]
  unfold factsPageReady factsReady
  simp only [hbuilt, hfacts, hemail]
  rfl

/-- The letters of ASCII. -/
def asciiLetters : Letters where
  alphanumeric := Char.isAlphanum
  alphabetic := Char.isAlpha

theorem sampleFacts_fit : Fit sampleFacts where
  name := wellSpaced_of_short (by decide) (by decide)
  hours := forall_mem_singleton.mpr (wellSpaced_of_short (by decide) (by decide))
  phone := wellSpaced_of_short (by decide) (by decide)

theorem sampleFacts_ready : factsPageReady asciiLetters sampleFacts = true := by
  refine factsPageReady_of sampleFacts_fit ?_ ?_
  · have htexts : (leafTexts (pageOf fixedDraft sampleFacts)).map LeafText.text =
        (pageOf fixedDraft sampleFacts).leaves.map fun leaf => leaf.2.inlines.flatten := by
      rw [leafTexts, map_map]
      exact map_congr_left fun leaf _ => text_eq_flatten leaf.2
    simp only [factsReport, htexts]
    decide
  · simp only [emailScan, text_eq_flatten]
    decide

/-- The fixed draft as JSON. -/
def fixedAnswer : Text :=
  "\x7b\"lead\":\"Welcome.\",\"sections\":[\x7b\"heading\":\"About us\",".toList ++
    "\"paragraphs\":[\"Visit us.\"],\"items\":[]\x7d],\"footer\":\"Thank you.\"\x7d".toList

/-- A reader that knows the fixed draft. -/
def sampleReader (answer : Text) : Option PageDraft :=
  if answer = fixedAnswer then some fixedDraft else none

/-- The file of the fixed draft is assembled for facts that are ready, if it keeps the limits. -/
theorem assemble_fixedDraft (hready : factsPageReady l facts = true)
    (hlimits : fileLimits (pageOf fixedDraft facts).render = .ok ()) :
    assemble l fixedDraft facts = .ok (encode (pageOf fixedDraft facts).render) := by
  have hcheck := check_pageOf (fit_of_factsPageReady hready) fixedDraft_accepted
  have hbuilt : buildPage fixedDraft facts = .ok (pageOf fixedDraft facts) :=
    buildPage_eq_ok.mpr ⟨rfl, hcheck⟩
  have hserialize := serialize_eq (of_check_eq_ok hcheck).1.size
  unfold factsPageReady factsReady at hready
  simp only [hbuilt] at hready
  unfold assemble
  simp only [hbuilt, hcheck]
  cases hfacts : checkFacts (pageOf fixedDraft facts) facts with
  | error => simp [hfacts, Except.isOk, Except.toBool] at hready
  | ok =>
    cases hemail : emailScan l (pageOf fixedDraft facts) with
    | true => simp [hfacts, hemail, Except.isOk, Except.toBool] at hready
    | false => simp [hserialize, fromUtf8_encode, hlimits]

/-- A first answer with a code that can be corrected, and a second one with a file. -/
theorem steps_of_two {first second text : Text} {code : DraftCode}
    {files : List Mother.EffectRequest}
    (hfirst : requestsOf fromStr l facts first = .error code) (htext : code.correction = some text)
    (hsecond : requestsOf fromStr l facts second = .ok files) :
    Builder.default.steps fromStr l facts [first, second] = [.correction text, .file files] := by
  simp [Builder.steps, Builder.answer, Builder.default, hfirst, htext, hsecond]

theorem createFile_injective : Function.Injective createFile := by
  intro content content' h
  simpa [createFile, String.ofList_inj] using h

/-- A draft that is read and accepted is published as it is assembled. -/
theorem requestsOf_of_assemble {d : PageDraft} {answer content : Text}
    (hread : fromStr answer = some d) (hcode : d.normalized.code = none)
    (hassemble : assemble l d.normalized facts = .ok (encode content)) :
    requestsOf fromStr l facts answer = .ok (createFile content) := by
  unfold requestsOf parseDraft fileRequests
  simp only [hread, hcode, hassemble, fromUtf8_encode]

/-- The fixed draft is published for the facts of the small page. -/
theorem requestsOf_fixedAnswer : requestsOf sampleReader asciiLetters sampleFacts fixedAnswer =
    .ok (createFile (pageOf fixedDraft sampleFacts).render) := by
  have hlimits : fileLimits (pageOf fixedDraft sampleFacts).render = .ok () := by
    unfold fileLimits
    rw [if_neg]
    decide +kernel
  have hread : sampleReader fixedAnswer = some fixedDraft := if_pos rfl
  have hnormalized : fixedDraft.normalized = fixedDraft := rfl
  have hassemble := assemble_fixedDraft sampleFacts_ready hlimits
  rw [← hnormalized] at hassemble
  exact requestsOf_of_assemble hread (by decide +kernel) hassemble

/-- An answer that is no JSON, then the fixed draft: the second is published, as one file that
passes the Verifier. -/
theorem two_answers_are_answered :
    let steps :=
      default.steps sampleReader asciiLetters sampleFacts ["Hello", fixedAnswer]
    steps.countP isFile ≤ 1 ∧ failed .assemblerFault ∉ steps ∧
      ∃ content : Text,
        steps[1]? = some (.file [.createFile "index.html" (String.ofList content)]) ∧
        ∀ d : Digests, (verifyPage d asciiLetters (encode content) sampleFacts
          (some (receiptOf d (encode content)))).passed = true := by
  have hfirst : requestsOf sampleReader asciiLetters sampleFacts "Hello" =
      .error .notOneObject := by
    rw [requestsOf, parseDraft, sampleReader, if_neg (by decide)]
  have hsteps := steps_of_two hfirst rfl requestsOf_fixedAnswer
  have hpublishes (d : Digests) := builder_publishes_only_verified_pages sampleReader asciiLetters d
    sampleFacts sampleFacts_ready ["Hello", fixedAnswer]
  generalize (pageOf fixedDraft sampleFacts).render = content at hsteps
  have hsecond := congrArg (·[1]?) hsteps
  refine ⟨(hpublishes ⟨id, []⟩).1, (hpublishes ⟨id, []⟩).2.2.1, content, hsecond, fun d => ?_⟩
  obtain ⟨-, content', hfiles, -, -, hpassed, -⟩ := (hpublishes d).2.1 1 _ hsecond
  rwa [createFile_injective hfiles]

end NexusOs.PageBuilder

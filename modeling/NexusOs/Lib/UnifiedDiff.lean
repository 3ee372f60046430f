import NexusOs.Lib.Utf8

/-!
# Unified diffs

The text format of a unified diff after its file header: hunks, each a line
`@@ -start,length +start,length @@` and lines with a sign, a line without a newline at its end
followed by a marker. `readHunks` reads the format and `patch` applies what it reads to a text;
`readHunks_renderHunks` says that reading is the inverse of writing.
-/

namespace NexusOs.UnifiedDiff

open Utf8 List Option

/-- The lines of a text, each with its newline if it has one (`split_inclusive`). -/
def splitLines : Text → List Text
  | [] => []
  | c :: text =>
    if c = '\n' then [c] :: splitLines text
    else
      match splitLines text with
      | [] => [[c]]
      | line :: lines => (c :: line) :: lines

/-- A text that may stand as a line: no newline but at its end, and not empty. -/
def IsLine (line : Text) : Prop :=
  ∃ body : Text, '\n' ∉ body ∧ (line = body ++ ['\n'] ∨ line = body ∧ body ≠ [])

theorem splitLines_flatten (text : Text) : (splitLines text).flatten = text := by
  induction text with
  | nil => rfl
  | cons c text ih =>
    rw [splitLines]
    split
    · simp [ih]
    · cases hlines : splitLines text with
      | nil | cons line lines => simpa [hlines] using ih

theorem isLine_of_mem_splitLines {text line : Text} (h : line ∈ splitLines text) : IsLine line := by
  induction text generalizing line with
  | nil => simp [splitLines] at h
  | cons c text ih =>
    rw [splitLines] at h
    split at h
    · rename_i hc
      rcases mem_cons.mp h with rfl | h
      · exact ⟨[], by simp, .inl (by simp [hc])⟩
      · exact ih h
    · rename_i hc
      cases hlines : splitLines text with
      | nil =>
        rw [hlines] at h
        obtain rfl := mem_singleton.mp h
        exact ⟨[c], by simpa using Ne.symm hc, .inr (by simp)⟩
      | cons first lines =>
        rw [hlines] at h
        rcases mem_cons.mp h with rfl | h
        · obtain ⟨body, hbody, hfirst⟩ := @ih first (by simp [hlines])
          refine ⟨c :: body, ?_, ?_⟩
          · simp [hbody, Ne.symm hc]
          · rcases hfirst with rfl | ⟨rfl, -⟩
            · exact .inl rfl
            · exact .inr ⟨rfl, by simp⟩
        · exact ih (by simp [hlines, h])

/-- What a line of a hunk says about the old and the new text. -/
inductive Sign where
  | keep
  | remove
  | add
  deriving DecidableEq

def Sign.char : Sign → Char
  | .keep => ' '
  | .remove => '-'
  | .add => '+'

/-- A hunk: the lines that it covers in the old and the new text, and its own lines. -/
structure Hunk where
  oldStart : Nat
  oldLength : Nat
  newStart : Nat
  newLength : Nat
  body : List (Sign × Text)
  deriving DecidableEq

/-- The decimal text of a number. -/
def decimal (n : Nat) : Text := Nat.toDigits 10 n

/-- The line after a line that has no newline. -/
def marker : Text := "\\ No newline at end of file\n"

/-- A line of a hunk. -/
def renderLine (line : Sign × Text) : Text :=
  line.1.char :: line.2 ++ (if line.2.getLast? = some '\n' then [] else '\n' :: marker)

/-- The first line of a hunk. -/
def renderHeader (h : Hunk) : Text :=
  "@@ -" ++ decimal h.oldStart ++ "," ++ decimal h.oldLength ++ " +" ++
    decimal h.newStart ++ "," ++ decimal h.newLength ++ " @@\n"

def renderHunk (h : Hunk) : Text := renderHeader h ++ h.body.flatMap renderLine

def renderHunks (hunks : List Hunk) : Text := hunks.flatMap renderHunk

/-! ## Reading -/

/-- The text after an expected beginning. -/
def expect (start : Text) (text : Text) : Option Text :=
  if start.isPrefixOf text then some (text.drop start.length) else none

/-- A number in decimal, and the text after it. -/
def readNat (text : Text) : Option (Nat × Text) :=
  let digits := text.takeWhile Char.isDigit
  if digits = [] then none
  else some (Nat.ofDigitChars 10 digits 0, text.dropWhile Char.isDigit)

/-- A line with its newline, and the text after it. -/
def takeLine : Text → Option (Text × Text)
  | [] => none
  | c :: text =>
    if c = '\n' then some ([c], text)
    else (takeLine text).map fun (line, rest) => (c :: line, rest)

def readSign : Char → Option Sign
  | ' ' => some .keep
  | '-' => some .remove
  | '+' => some .add
  | _ => none

/-- A line of a hunk: the marker after it takes its newline away. -/
def readLine (text : Text) : Option ((Sign × Text) × Text) :=
  match text with
  | [] => none
  | c :: text => do
    let sign ← readSign c
    let (line, rest) ← takeLine text
    match rest with
    | '\\' :: _ =>
      let (_, rest) ← takeLine rest
      return ((sign, line.dropLast), rest)
    | _ => return ((sign, line), rest)

/-- The lines of a hunk, until those of the old and the new text are read. The first number
bounds the lines. -/
def readBody : Nat → Nat → Nat → Text → Option (List (Sign × Text) × Text)
  | _, 0, 0, text => some ([], text)
  | 0, _, _, _ => none
  | fuel + 1, old, new, text => do
    let (line, rest) ← readLine text
    let (old, new) ← match line.1, old, new with
      | .keep, old + 1, new + 1 => some (old, new)
      | .remove, old + 1, new => some (old, new)
      | .add, old, new + 1 => some (old, new)
      | _, _, _ => none
    let (lines, rest) ← readBody fuel old new rest
    return (line :: lines, rest)

/-- A hunk, and the text after it. -/
def readHunk (text : Text) : Option (Hunk × Text) := do
  let text ← expect "@@ -" text
  let (oldStart, text) ← readNat text
  let text ← expect "," text
  let (oldLength, text) ← readNat text
  let text ← expect " +" text
  let (newStart, text) ← readNat text
  let text ← expect "," text
  let (newLength, text) ← readNat text
  let text ← expect " @@\n" text
  let (body, text) ← readBody (oldLength + newLength) oldLength newLength text
  return ({ oldStart, oldLength, newStart, newLength, body }, text)

/-- The hunks of a diff. The number bounds the hunks. -/
def readHunks : Nat → Text → Option (List Hunk)
  | _, [] => some []
  | 0, _ => none
  | fuel + 1, text => do
    let (hunk, rest) ← readHunk text
    let hunks ← readHunks fuel rest
    return hunk :: hunks

/-- The lines before a hunk in the old text. -/
def Hunk.oldBefore (h : Hunk) : Nat := if h.oldLength = 0 then h.oldStart else h.oldStart - 1

/-- The lines before a hunk in the new text. -/
def Hunk.newBefore (h : Hunk) : Nat := if h.newLength = 0 then h.newStart else h.newStart - 1

/-- Apply the lines of a hunk: what they make of the lines they are applied to, and the lines
after those. -/
def applyBody : List (Sign × Text) → List Text → Option (List Text × List Text)
  | [], lines => some ([], lines)
  | (.add, text) :: body, lines => do
    let (made, rest) ← applyBody body lines
    return (text :: made, rest)
  | (.remove, text) :: body, line :: lines => if line = text then applyBody body lines else none
  | (.keep, text) :: body, line :: lines => do
    let (made, rest) ← if line = text then applyBody body lines else none
    return (text :: made, rest)
  | _ :: _, [] => none

/-- Apply hunks to the lines from line `at` on. -/
def applyHunks : Nat → List Hunk → List Text → Option (List Text)
  | _, [], lines => some lines
  | start, h :: hunks, lines =>
    if h.oldBefore < start ∨ lines.length < h.oldBefore - start then none
    else do
      let (made, rest) ← applyBody h.body (lines.drop (h.oldBefore - start))
      let after ← applyHunks (h.oldBefore + h.oldLength) hunks rest
      return lines.take (h.oldBefore - start) ++ made ++ after

/-- Apply the text of a diff, after its file header, to a text. -/
def patch (diff old : Text) : Option Text := do
  let hunks ← readHunks diff.length diff
  let lines ← applyHunks 0 hunks (splitLines old)
  return lines.flatten

/-! ## Reading what was written -/

@[simp] theorem expect_append (start text : Text) : expect start (start ++ text) = some text := by
  simp [expect]

theorem takeWhile_digits (n : Nat) {c : Char} (text : Text) (hc : c.isDigit = false) :
    (decimal n ++ c :: text).takeWhile Char.isDigit = decimal n ∧
      (decimal n ++ c :: text).dropWhile Char.isDigit = c :: text := by
  have hdigits : ∀ d ∈ decimal n, d.isDigit = true := fun d hd =>
    Nat.isDigit_of_mem_toDigits (by decide) (by decide) hd
  constructor
  · rw [takeWhile_append_of_pos hdigits, takeWhile_cons_of_neg (by simp [hc]), append_nil]
  · rw [dropWhile_append_of_pos hdigits, dropWhile_cons_of_neg (by simp [hc])]

/-- A number that something else follows is read as it was written. -/
theorem readNat_decimal (after : Text) (h : after.head?.any Char.isDigit = false) (hne : after ≠ [])
    (n : Nat) (text : Text) : readNat (decimal n ++ (after ++ text)) = some (n, after ++ text) := by
  obtain ⟨c, rest, rfl⟩ := exists_cons_of_ne_nil hne
  have hc : c.isDigit = false := by simpa using h
  obtain ⟨htake, hdrop⟩ := takeWhile_digits n (rest ++ text) hc
  have hdigits : decimal n ≠ [] := Nat.toDigits_ne_nil
  rw [cons_append, readNat, htake, hdrop]
  simp only [hdigits, if_false]
  rw [decimal, Nat.ofDigitChars_toDigits (by decide) (by decide)]

theorem takeLine_append {body : Text} (h : '\n' ∉ body) (rest : Text) :
    takeLine (body ++ '\n' :: rest) = some (body ++ ['\n'], rest) := by
  induction body with
  | nil => simp [takeLine]
  | cons c body ih =>
    simp only [mem_cons, not_or] at h
    simp [takeLine, Ne.symm h.1, ih h.2]

theorem takeLine_marker (rest : Text) : takeLine (marker ++ rest) = some (marker, rest) := by
  have hmarker : marker = "\\ No newline at end of file" ++ ['\n'] := by decide
  rw [hmarker, append_assoc]
  exact takeLine_append (by decide) rest

@[simp] theorem readSign_char (sign : Sign) : readSign sign.char = some sign := by
  cases sign <;> rfl

variable {rest : Text} {fuel : Nat}

/-- A line that no marker follows is read as it was written. -/
theorem readLine_renderLine {line : Sign × Text} (h : IsLine line.2)
    (hrest : rest.head? ≠ some '\\') : readLine (renderLine line ++ rest) = some (line, rest) := by
  obtain ⟨sign, text⟩ := line
  obtain ⟨body, hbody, hline⟩ := h
  rcases hline with rfl | ⟨rfl, hne⟩
  · have hlast : (body ++ ['\n']).getLast? = some '\n' := by simp
    simp only [renderLine, hlast, if_true, cons_append, append_assoc, nil_append, readLine,
      readSign_char, bind_eq_bind, bind_some, takeLine_append hbody]
    split
    · simp at hrest
    · rfl
  · have hlast : text.getLast? ≠ some '\n' := fun h => hbody (mem_of_getLast? h)
    obtain ⟨tail, htail⟩ : ∃ tail, marker = '\\' :: tail := ⟨_, rfl⟩
    simp only [renderLine, hlast, if_false, cons_append, append_assoc, readLine,
      takeLine_append hbody]
    have hmarker := takeLine_marker rest
    rw [htail, cons_append] at hmarker ⊢
    simp [hmarker]

/-- The lines of a hunk in the old text, and in the new one. -/
def oldLines (body : List (Sign × Text)) : List Text :=
  (body.filter fun line => line.1 ≠ .add).map Prod.snd

def newLines (body : List (Sign × Text)) : List Text :=
  (body.filter fun line => line.1 ≠ .remove).map Prod.snd

section

variable (text : Text) (body : List (Sign × Text))

@[simp] theorem oldLines_keep : oldLines ((.keep, text) :: body) = text :: oldLines body := rfl

@[simp] theorem oldLines_remove : oldLines ((.remove, text) :: body) = text :: oldLines body := rfl

@[simp] theorem oldLines_add : oldLines ((.add, text) :: body) = oldLines body := rfl

@[simp] theorem newLines_keep : newLines ((.keep, text) :: body) = text :: newLines body := rfl

@[simp] theorem newLines_remove : newLines ((.remove, text) :: body) = newLines body := rfl

@[simp] theorem newLines_add : newLines ((.add, text) :: body) = text :: newLines body := rfl

end

/-- A hunk that says what it is: its lines are lines, its lengths are those of its lines, and the
lines of a text are numbered from 1. -/
structure Hunk.WellFormed (h : Hunk) : Prop where
  lines : ∀ line ∈ h.body, IsLine line.2
  old : h.oldLength = (oldLines h.body).length
  new : h.newLength = (newLines h.body).length
  oldNumbered : 0 < h.oldLength → 0 < h.oldStart
  newNumbered : 0 < h.newLength → 0 < h.newStart

theorem head_renderLine (line : Sign × Text) (rest : Text) :
    (renderLine line ++ rest).head? ≠ some '\\' := by
  obtain ⟨sign, text⟩ := line
  cases sign <;> simp [renderLine, Sign.char]

theorem head_flatMap_renderLine {body : List (Sign × Text)} (hrest : rest.head? ≠ some '\\') :
    (body.flatMap renderLine ++ rest).head? ≠ some '\\' := by
  cases body with
  | nil => simpa using hrest
  | cons line body =>
    rw [flatMap_cons, append_assoc]
    exact head_renderLine line _

/-- The lines of a hunk are read as they were written. -/
theorem readBody_render {body : List (Sign × Text)} (hlines : ∀ line ∈ body, IsLine line.2)
    (hrest : rest.head? ≠ some '\\') (hfuel : body.length ≤ fuel) :
    readBody fuel (oldLines body).length (newLines body).length (body.flatMap renderLine ++ rest) =
      some (body, rest) := by
  induction body generalizing fuel with
  | nil => simp [oldLines, newLines, readBody]
  | cons line body ih =>
    obtain ⟨sign, text⟩ := line
    obtain ⟨fuel, rfl⟩ : ∃ n, fuel = n + 1 := ⟨fuel - 1, by simp at hfuel; omega⟩
    have hread : readLine (renderLine (sign, text) ++ (body.flatMap renderLine ++ rest)) =
        some ((sign, text), body.flatMap renderLine ++ rest) :=
      readLine_renderLine (hlines _ (by simp)) (head_flatMap_renderLine hrest)
    have hbody := @ih fuel (fun line hline => hlines line (by simp [hline])) (by simpa using hfuel)
    rw [flatMap_cons, append_assoc]
    cases sign with
    | keep =>
      rw [readBody, hread]
      · simp [hbody]
      · simp
    | remove =>
      rw [readBody, hread]
      · simp [hbody]
      · simp
    | add =>
      rw [readBody, hread]
      · simp [hbody]
      · simp

theorem length_body_le (body : List (Sign × Text)) :
    body.length ≤ (oldLines body).length + (newLines body).length := by
  induction body with
  | nil => simp
  | cons line body ih =>
    obtain ⟨sign, text⟩ := line
    cases sign <;> simp <;> omega

/-- A hunk is read as it was written. -/
theorem readHunk_renderHunk {h : Hunk} (hformed : h.WellFormed) (hrest : rest.head? ≠ some '\\') :
    readHunk (renderHunk h ++ rest) = some (h, rest) := by
  have hbody : readBody (h.oldLength + h.newLength) h.oldLength h.newLength
      (h.body.flatMap renderLine ++ rest) = some (h.body, rest) := by
    rw [hformed.old, hformed.new]
    exact readBody_render hformed.lines hrest (length_body_le h.body)
  have hcomma := readNat_decimal "," (by decide) (by decide)
  have hplus := readNat_decimal " +" (by decide) (by decide)
  have hclose := readNat_decimal " @@\n" (by decide) (by decide)
  unfold readHunk renderHunk renderHeader
  simp only [append_assoc, expect_append, bind_eq_bind, bind_some, hcomma, hplus, hclose, hbody]
  rfl

theorem renderHunk_eq_cons (h : Hunk) : ∃ rest, renderHunk h = '@' :: rest := by exact ⟨_, rfl⟩

theorem head_renderHunks (hunks : List Hunk) : (renderHunks hunks).head? ≠ some '\\' := by
  cases hunks with
  | nil => simp [renderHunks]
  | cons hunk hunks =>
    obtain ⟨rest, hrest⟩ := renderHunk_eq_cons hunk
    rw [renderHunks, flatMap_cons, hrest, cons_append, List.head?_cons]
    decide

/-- The hunks of a diff are read as they were written. -/
theorem readHunks_renderHunks {hunks : List Hunk} (h : ∀ h ∈ hunks, h.WellFormed)
    (hfuel : hunks.length ≤ fuel) : readHunks fuel (renderHunks hunks) = some hunks := by
  induction hunks generalizing fuel with
  | nil => simp [renderHunks, readHunks]
  | cons hunk hunks ih =>
    obtain ⟨fuel, rfl⟩ : ∃ n, fuel = n + 1 := ⟨fuel - 1, by simp at hfuel; omega⟩
    have hhunk := readHunk_renderHunk (h hunk (by simp)) (head_renderHunks hunks)
    have hrest := @ih fuel (fun h' hh => h h' (by simp [hh])) (by simpa using hfuel)
    have hne : renderHunk hunk ++ renderHunks hunks ≠ [] := by exact cons_ne_nil _ _
    rw [renderHunks, flatMap_cons, ← renderHunks, readHunks, hhunk]
    · simp [hrest]
    · exact hne

theorem length_le_renderHunks (hunks : List Hunk) : hunks.length ≤ (renderHunks hunks).length := by
  induction hunks with
  | nil => simp
  | cons hunk hunks ih =>
    obtain ⟨rest, hrest⟩ := renderHunk_eq_cons hunk
    rw [renderHunks, flatMap_cons, ← renderHunks, hrest]
    simp only [length_append, length_cons]
    omega

/-! ## What a diff describes -/

/-- The hunks, in their order and with their line numbers and lengths, describe how the lines from
line `i` of the old text become the lines from line `j` of the new one. -/
inductive Describes : Nat → Nat → List Hunk → List Text → List Text → Prop where
  | done {i j : Nat} {lines : List Text} : Describes i j [] lines lines
  | hunk {i j : Nat} {h : Hunk} {hunks : List Hunk} {gap old new : List Text} :
      h.oldBefore = i + gap.length → h.newBefore = j + gap.length → h.WellFormed →
      Describes (h.oldBefore + h.oldLength) (h.newBefore + h.newLength) hunks old new →
      Describes i j (h :: hunks) (gap ++ (oldLines h.body ++ old)) (gap ++ (newLines h.body ++ new))

theorem applyBody_oldLines (body : List (Sign × Text)) (rest : List Text) :
    applyBody body (oldLines body ++ rest) = some (newLines body, rest) := by
  induction body with
  | nil => rfl
  | cons line body ih =>
    obtain ⟨sign, text⟩ := line
    cases sign with
    | keep =>
      rw [oldLines_keep, cons_append, applyBody]
      simp [ih]
    | remove => rw [oldLines_remove, newLines_remove, cons_append, applyBody, if_pos rfl, ih]
    | add =>
      rw [applyBody]
      simp [ih]

namespace Describes

variable {i j : Nat} {hunks : List Hunk} {old new : List Text}

section

variable (h : Describes i j hunks old new)

include h

/-- Applying the hunks makes the new lines of the old ones. -/
theorem apply : applyHunks i hunks old = some new := by
  induction h with
  | done => rfl
  | @hunk i j h hunks gap old new hold hnew hformed _ ih =>
    have hskip : h.oldBefore - i = gap.length := by omega
    rw [applyHunks, if_neg (by simp only [length_append]; omega), hskip,
      drop_left, applyBody_oldLines]
    simp [ih]

theorem wellFormed : ∀ h ∈ hunks, h.WellFormed := by
  induction h with
  | done => simp
  | hunk _ _ hformed _ ih => exact forall_mem_cons.mpr ⟨hformed, ih⟩

/-- No hunk begins before the lines it is about. -/
theorem le_before : ∀ h ∈ hunks, i ≤ h.oldBefore ∧ j ≤ h.newBefore := by
  induction h with
  | done => simp
  | hunk hold hnew _ _ ih =>
    refine forall_mem_cons.mpr ⟨by omega, fun k hk => ?_⟩
    have := ih k hk
    omega

/-- The hunks are in increasing order and do not overlap. -/
theorem ordered :
    hunks.Pairwise fun h k =>
      h.oldBefore + h.oldLength ≤ k.oldBefore ∧ h.newBefore + h.newLength ≤ k.newBefore := by
  induction h with
  | done => exact .nil
  | hunk _ _ _ hrest ih => exact .cons hrest.le_before ih

/-- A hunk stands at its line numbers: the lines of either text there are its lines. -/
theorem placed :
    ∀ h ∈ hunks, (old.drop (h.oldBefore - i)).take h.oldLength = oldLines h.body ∧
      (new.drop (h.newBefore - j)).take h.newLength = newLines h.body := by
  induction h with
  | done => simp
  | @hunk i j h hunks gap old new hold hnew hformed hrest ih =>
    refine forall_mem_cons.mpr ⟨?_, fun k hk => ?_⟩
    · have holdSkip : h.oldBefore - i = gap.length := by omega
      have hnewSkip : h.newBefore - j = gap.length := by omega
      rw [holdSkip, hnewSkip, drop_left, drop_left, hformed.old, hformed.new]
      exact ⟨take_left, take_left⟩
    · obtain ⟨hkold, hknew⟩ := ih k hk
      obtain ⟨hle, hle'⟩ := hrest.le_before k hk
      have hlen := hformed.old
      have hlen' := hformed.new
      have holdSkip : k.oldBefore - i = gap.length + ((oldLines h.body).length +
        (k.oldBefore - (h.oldBefore + h.oldLength))) := by omega
      have hnewSkip : k.newBefore - j = gap.length + ((newLines h.body).length +
        (k.newBefore - (h.newBefore + h.newLength))) := by omega
      rw [holdSkip, hnewSkip, drop_append, drop_append, drop_append, drop_append]
      simp only [Nat.add_sub_cancel_left, drop_eq_nil_of_le (Nat.le_add_right ..)]
      exact ⟨hkold, hknew⟩

end

/-- Applying the written diff to the old text makes the new one. -/
theorem patch_eq {old new : Text} (h : Describes 0 0 hunks (splitLines old) (splitLines new)) :
    patch (renderHunks hunks) old = some new := by
  have hread := readHunks_renderHunks h.wellFormed (length_le_renderHunks hunks)
  unfold patch
  simp [hread, h.apply, splitLines_flatten]

end Describes

end NexusOs.UnifiedDiff

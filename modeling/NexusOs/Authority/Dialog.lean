import NexusOs.Lib.Escape

/-!
# What the Owner is shown

`authority/evidence.rs`: how a text is put on the lines of a confirmation. The tables of Unicode and
the division into grapheme clusters are parameters. `owner_is_shown_the_whole_text`: the lines of
any text are within the window, are plain, and say the whole text and no other.
-/

namespace NexusOs.Authority

open Utf8 Escape List

/-- `char::is_control` and `char::is_whitespace`, with their ASCII part fixed. -/
structure Unicode where
  isControl : Char → Bool
  isWhitespace : Char → Bool
  ascii_control : ∀ c : Char, c.toNat < 128 → isControl c = decide (c.toNat < 32 ∨ c.toNat = 127)
  ascii_whitespace : ∀ c : Char, c.toNat < 128 →
    isWhitespace c = decide (9 ≤ c.toNat ∧ c.toNat ≤ 13 ∨ c = ' ')

/-- `UnicodeSegmentation::graphemes`: some division of every text. -/
structure Segmentation where
  graphemes : Text → List Text
  flatten_graphemes : ∀ text, (graphemes text).flatten = text
  nonempty : ∀ text, ∀ cluster ∈ graphemes text, cluster ≠ []

/-- The formatting and direction-changing characters that `shown` lists. -/
def hidden : List (Nat × Nat) :=
  [(0xAD, 0xAD), (0x34F, 0x34F), (0x600, 0x605), (0x61C, 0x61C), (0x6DD, 0x6DD), (0x70F, 0x70F),
    (0x890, 0x891), (0x8E2, 0x8E2), (0x115F, 0x1160), (0x17B4, 0x17B5), (0x180B, 0x180F),
    (0x200B, 0x200F), (0x2028, 0x202E), (0x2060, 0x206F), (0x2800, 0x2800), (0x3164, 0x3164),
    (0xFE00, 0xFE0F), (0xFEFF, 0xFEFF), (0xFFA0, 0xFFA0), (0xFFF0, 0xFFFB), (0x110BD, 0x110BD),
    (0x110CD, 0x110CD), (0x13430, 0x1345F), (0x1BCA0, 0x1BCA3), (0x1D173, 0x1D17A),
    (0xE0000, 0xE0FFF)]

/-- `DIALOG_COLUMNS`. -/
def DIALOG_COLUMNS : Nat := 96

section

variable (u : Unicode) (seg : Segmentation)

/-- `shown`. -/
def shown (c : Char) : Bool :=
  !u.isControl c && (c == ' ' || !u.isWhitespace c) &&
    !hidden.any fun range => range.1 ≤ c.toNat && c.toNat ≤ range.2

/-- What `escaped` writes for a character at an index of its cluster. -/
def escapedAt (index : Nat) (c : Char) : Text :=
  if c = '\\' then ['\\', '\\']
  else if shown u c ∧ index < 3 then [c]
  else if c = '"' ∨ c = '\'' then escapeUnicode c
  else escapeDefault c

/-- `escaped`. -/
def escaped (text : Text) : Text :=
  (seg.graphemes text).flatMap fun cluster =>
    cluster.zipIdx.flatMap fun (c, index) => escapedAt u index c

/-- The mark of a continued line. -/
def continued : Text := ['↳', ' ']

/-- The mark of a quoted line. -/
def quoteMark : Text := ['│', ' ']

/-- The mark of a continued quoted line. -/
def continuedQuoteMark : Text := ['│', '↳', ' ']

/-- `wrapped`. -/
def wrapped (text : Text) : List Text :=
  let chars := escaped u seg text
  let first := min chars.length DIALOG_COLUMNS
  chars.take first :: (chunks (DIALOG_COLUMNS - 2) (chars.drop first)).map (continued ++ ·)

/-- The lines that `quoted` makes of the characters of one line of its text. -/
def quotedLines (chars : Text) : List Text :=
  let first := min chars.length (DIALOG_COLUMNS - 2)
  (quoteMark ++ chars.take first) ::
    (chunks (DIALOG_COLUMNS - 3) (chars.drop first)).map (continuedQuoteMark ++ ·)

/-- `quoted`. -/
def quoted (label text : Text) : List Text :=
  (label ++ [':']) :: (text.splitOn '\n').flatMap fun line => quotedLines (escaped u seg line)

/-- From quoted lines, what continues the line before them, and the lines of text that begin in
them. -/
def gather : List Text → Text × List Text
  | [] => ([], [])
  | line :: rest =>
    match line with
    | '│' :: ' ' :: chars => ([], (chars ++ (gather rest).1) :: (gather rest).2)
    | '│' :: '↳' :: ' ' :: chars => (chars ++ (gather rest).1, (gather rest).2)
    | _ => gather rest

/-- The text that quoted lines show. -/
def unquote (lines : List Text) : Text := ['\n'].intercalate ((gather lines).2.map unescape)

/-! ## Escaped text -/

variable {u seg}

/-- Printable ASCII is shown. -/
theorem shown_of_printable {c : Char} (h : 32 ≤ c.toNat ∧ c.toNat ≤ 126) : shown u c = true := by
  have hcontrol : u.isControl c = false := by
    rw [u.ascii_control c (by omega), decide_eq_false_iff_not]
    omega
  have hspace : (c == ' ' || !u.isWhitespace c) = true := by
    rw [u.ascii_whitespace c (by omega), Bool.or_eq_true, beq_iff_eq, Bool.not_eq_true',
      decide_eq_false_iff_not]
    by_cases hc : c = ' '
    · exact .inl hc
    · refine .inr fun hwhite => ?_
      rcases hwhite with hwhite | hwhite
      · omega
      · exact hc hwhite
  -- Every range of the list lies above ASCII.
  have hhidden : (hidden.any fun range => range.1 ≤ c.toNat && c.toNat ≤ range.2) = false := by
    have hranges : hidden.all (fun range => 127 ≤ range.1) = true := by decide
    rw [any_eq_false]
    intro range hrange
    have hlow := of_decide_eq_true (all_eq_true.mp hranges range hrange)
    simp only [Bool.and_eq_true, decide_eq_true_eq]
    omega
  simp [shown, hcontrol, hspace, hhidden]

theorem shown_escapedAt {index : Nat} {c d : Char} (h : d ∈ escapedAt u index c) :
    shown u d = true := by
  unfold escapedAt at h
  split at h
  · simp only [mem_cons, not_mem_nil, or_false, or_self] at h
    exact h ▸ shown_of_printable (by decide)
  split at h
  · next hshown => exact mem_singleton.mp h ▸ hshown.1
  split at h
  · exact shown_of_printable (escapeUnicode_printable h)
  · exact shown_of_printable (escapeDefault_printable h)

/-- Each character is read back, whatever its place in its cluster. -/
theorem read_escapedAt (index : Nat) (c : Char) (rest : Text) :
    readFrom .plain (escapedAt u index c ++ rest) = c :: readFrom .plain rest := by
  unfold escapedAt
  split
  · next h =>
    subst h
    exact readFrom_slash (by decide) rest
  next hslash =>
  split
  · exact readFrom_plain hslash rest
  split
  · exact read_escapeUnicode c rest
  · exact read_escapeDefault c rest

theorem read_cluster (cluster : Text) (index : Nat) (rest : Text) :
    readFrom .plain
        ((cluster.zipIdx index).flatMap (fun (c, index) => escapedAt u index c) ++ rest) =
      cluster ++ readFrom .plain rest := by
  induction cluster generalizing index with
  | nil => rfl
  | cons c cluster ih =>
    rw [zipIdx_cons, flatMap_cons, append_assoc, read_escapedAt, ih]
    rfl

theorem read_escaped (text : Text) : unescape (escaped u seg text) = text := by
  have hread : ∀ clusters : List Text, readFrom .plain (clusters.flatMap fun cluster =>
      cluster.zipIdx.flatMap fun (c, index) => escapedAt u index c) = clusters.flatten := by
    intro clusters
    induction clusters with
    | nil => rfl
    | cons cluster clusters ih => rw [flatMap_cons, read_cluster, ih, flatten_cons]
  rw [unescape, escaped, hread, seg.flatten_graphemes]

/-! ## Lines -/

theorem mem_quotedLines {chars line : Text} (h : line ∈ quotedLines chars) :
    line.length ≤ DIALOG_COLUMNS ∧ (quoteMark <+: line ∨ continuedQuoteMark <+: line) := by
  rcases mem_cons.mp h with rfl | h
  · refine ⟨?_, .inl (prefix_append _ _)⟩
    simp only [quoteMark, length_append, length_cons, length_nil, length_take]
    unfold DIALOG_COLUMNS
    omega
  · obtain ⟨chunk, hchunk, rfl⟩ := mem_map.mp h
    have hlength : chunk.length ≤ DIALOG_COLUMNS - 3 := length_of_mem_chunks hchunk
    refine ⟨?_, .inr (prefix_append _ _)⟩
    simp only [continuedQuoteMark, length_append, length_cons, length_nil]
    unfold DIALOG_COLUMNS at hlength ⊢
    omega

theorem gather_continued (pieces rest : List Text) :
    gather (pieces.map (continuedQuoteMark ++ ·) ++ rest) =
      (pieces.flatten ++ (gather rest).1, (gather rest).2) := by
  induction pieces with
  | nil => rfl
  | cons piece pieces ih =>
    show (piece ++ (gather (pieces.map (continuedQuoteMark ++ ·) ++ rest)).1,
      (gather (pieces.map (continuedQuoteMark ++ ·) ++ rest)).2) = _
    rw [ih, flatten_cons, append_assoc]

/-- The lines of one line of text are gathered to its characters, and take nothing from later lines.
-/
theorem gather_quotedLines (chars : Text) {rest : List Text} (h : (gather rest).1 = []) :
    gather (quotedLines chars ++ rest) = ([], chars :: (gather rest).2) := by
  let first := min chars.length (DIALOG_COLUMNS - 2)
  let pieces := chunks (DIALOG_COLUMNS - 3) (chars.drop first)
  show ([], (chars.take first ++ (gather (pieces.map (continuedQuoteMark ++ ·) ++ rest)).1) ::
    (gather (pieces.map (continuedQuoteMark ++ ·) ++ rest)).2) = _
  rw [gather_continued, h, append_nil, flatten_chunks (by decide), take_append_drop]

theorem unquote_quoted (text : Text) :
    unquote ((text.splitOn '\n').flatMap fun line => quotedLines (escaped u seg line)) = text := by
  have hgather : ∀ lines : List Text,
      gather (lines.flatMap fun line => quotedLines (escaped u seg line)) =
        ([], lines.map (escaped u seg)) := by
    intro lines
    induction lines with
    | nil => rfl
    | cons line lines ih => rw [flatMap_cons, gather_quotedLines _ (by rw [ih]), ih, map_cons]
  have hread : unescape ∘ escaped u seg = id := funext read_escaped
  rw [unquote, hgather, map_map, hread, map_id, intercalate_splitOn]

end

/-- What the Owner is shown is plain, within the window, and says the whole text: an escaped text is
read back without its clusters, wrapped lines are the escaped text, and quoted lines are read back
line by line. -/
theorem owner_is_shown_the_whole_text (u : Unicode) (seg : Segmentation) :
    (∀ text, (∀ c ∈ escaped u seg text, shown u c = true) ∧ unescape (escaped u seg text) = text) ∧
    (∀ seg' text text', escaped u seg text = escaped u seg' text' → text = text') ∧
    (∀ text, (∀ line ∈ wrapped u seg text, line.length ≤ DIALOG_COLUMNS) ∧
      ∃ (first : Text) (pieces : List Text), wrapped u seg text = first :: pieces.map (continued ++
        ·) ∧
        first ++ pieces.flatten = escaped u seg text) ∧
    ∀ label text, ∃ lines, quoted u seg label text = (label ++ [':']) :: lines ∧
      (∀ line ∈ lines, line.length ≤ DIALOG_COLUMNS ∧
        (quoteMark <+: line ∨ continuedQuoteMark <+: line)) ∧ unquote lines = text := by
  refine ⟨fun text => ⟨?_, read_escaped text⟩, ?_, fun text => ⟨?_, ?_⟩, ?_⟩
  · intro c hc
    obtain ⟨cluster, -, hc⟩ := mem_flatMap.mp hc
    obtain ⟨⟨d, index⟩, -, hc⟩ := mem_flatMap.mp hc
    exact shown_escapedAt hc
  · intro seg' text text' h
    rw [← @read_escaped u seg text, h, read_escaped]
  · intro line hline
    rcases mem_cons.mp hline with rfl | hline
    · exact Nat.le_trans (length_take_le _ _) (Nat.min_le_right _ _)
    · obtain ⟨chunk, hchunk, rfl⟩ := mem_map.mp hline
      have hlength : chunk.length ≤ DIALOG_COLUMNS - 2 := length_of_mem_chunks hchunk
      simp only [continued, length_append, length_cons, length_nil]
      unfold DIALOG_COLUMNS at hlength ⊢
      omega
  · refine ⟨_, _, rfl, ?_⟩
    rw [flatten_chunks (by decide), take_append_drop]
  · intro label text
    refine ⟨_, rfl, fun line hline => ?_, unquote_quoted text⟩
    obtain ⟨source, -, hline⟩ := mem_flatMap.mp hline
    exact mem_quotedLines hline

end NexusOs.Authority

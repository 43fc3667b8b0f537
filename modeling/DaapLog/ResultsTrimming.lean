import DaapLog.FileLines
import DaapLog.KeyTemplates
import DaapLog.LineTrimming
import DaapLog.ResultsParser

/-!
`parseResults` with its array `line` and the variable `line_len`, which nothing sets in
front of the loop that strips newline characters: the loop only counts it down.
-/

namespace DaapLog.ResultsTrimming

open DaapLog.ByteBuffers
open DaapLog.CStrings
open DaapLog.FileLines
open DaapLog.KeyTemplates
open DaapLog.LineTrimming
open DaapLog.ResultsParser
open DaapLog.Runs
open DaapLog.TableRecognition
open DaapLog.TableTemplates

/-- What `strtok` leaves of the characters it goes over: each delimiter that ends a token
is replaced by a NUL. -/
def strtokStore (delims : Text) : Bool → Text → Text
  | _, [] => []
  | inToken, c :: rest =>
      if c ∈ delims then (if inToken then '\x00' else c) :: strtokStore delims false rest
      else c :: strtokStore delims true rest

/-- The locals of the line loop, with the array that `fgets` reads to. -/
structure LoopState where
  parser : ParserState
  line : Text
  line_len : Int

/-- The indices of the stripping loop, and what it leaves unless one is out of range. -/
def stripLine (line : Text) (line_len : Int) : List Int × Option (Text × Int) :=
  if line_len ≤ 0 then ([line_len - 1], none)
  else
    let r := trimLoop isEol line line_len.toNat
    (r.1, r.2.map fun left => (left.1, (left.2 : Int)))

/-- The array behind the rest of the loop body, which takes a row apart. -/
def lineAfter {ρ : Type} (p : Parser ρ) (s : ParserState) (line : Text) : Text :=
  match (recognize p.tables s.toRecognizer (stringIn line)).2 with
  | .row t =>
      strtokStore (tableAt p.tables t).sep false (stringIn line) ++
        line.drop (stringIn line).length
  | _ => line

/-- The loop of one line: the line is stored, stripped and examined. -/
def stripped (s : LoopState) (piece : Text) : List Int × Option (Text × Int) :=
  stripLine (storeLine piece s.line) s.line_len

def resultsRound {ρ : Type} (p : Parser ρ) (s : LoopState) (piece : Text) :
    Option (LoopState × List Event) :=
  (stripped s piece).2.bind fun left =>
    (parseLine p s.parser (stringIn left.1)).map fun r =>
      (⟨r.1, lineAfter p s.parser left.1, left.2⟩, r.2)

/-- The three files; one that cannot be opened has no content. -/
structure Files where
  key_template : Option Text
  table_template : Option Text
  results : Option Text

def Files.parser {ρ : Type} (files : Files) (pcre_compile : Text → Option ρ)
    (pcre_exec : ρ → Text → Int × List Int) : Parser ρ where
  tables := (parseTableTemplate files.table_template).2
  key_regexes := (parseKeyTemplate pcre_compile files.key_template).2.1
  pcre_exec := pcre_exec

/-- What the line loop reads: nothing if one of the files cannot be opened. -/
def Files.pieces (files : Files) : List Text :=
  match files.results, files.table_template, files.key_template with
  | some results, some _, some _ => fgetsPieces results
  | _, _, _ => []

/-- The locals of `parseResults` that no statement has set when the loop starts. -/
structure Indeterminate where
  columns : Nat → Text
  line : Text

def Indeterminate.start (locals : Indeterminate) (line_len : Int) : LoopState :=
  ⟨⟨{}, locals.columns⟩, locals.line, line_len⟩

section Loop

variable {ρ : Type} (p : Parser ρ) (locals : Indeterminate) (pieces : List Text)

/-- The pairs sent, unless an index is out of range. -/
def sentPairs (line_len : Int) : Option (List (Text × Text)) :=
  (run (resultsRound p) (locals.start line_len) pieces).map fun r =>
    r.2.filterMap fun event =>
      match event with
      | .exec _ _ => none
      | .send key val => some (key, val)

/-- The pairs are the same for every start value of `line_len`, every line is examined
without the newline characters at its end, and the loop stays inside of it. -/
structure LengthIndependent : Prop where
  same : ∀ line_len line_len',
    sentPairs p locals pieces line_len = sentPairs p locals pieces line_len'
  examined : ∀ line_len, Throughout (resultsRound p)
    (fun _ s piece => ((stripped s piece).2.map fun left => stringIn left.1) =
      some (trimEol (stringIn piece))) (locals.start line_len) pieces
  inside : ∀ line_len, Throughout (resultsRound p)
    (fun _ s piece => ∀ i ∈ (stripped s piece).1, 0 ≤ i ∧ i < (stringIn piece).length)
    (locals.start line_len) pieces

/-- With the start value 0 the first line makes the loop read in front of the array. -/
theorem lengthIndependent_iff_nil : LengthIndependent p locals pieces ↔ pieces = [] := by
  constructor
  · intro h
    rcases pieces with _ | ⟨piece, rest⟩
    · rfl
    · have hfirst := h.inside 0 [] piece rest rfl (locals.start 0, []) rfl
      have hfront := (hfirst (-1) (List.mem_singleton_self _)).1
      exact absurd hfront (by decide)
  · rintro rfl
    exact ⟨fun _ _ => rfl, fun _ => throughout_nil, fun _ => throughout_nil⟩

end Loop

theorem fgetsPieces_eq_nil_iff (file : Text) : fgetsPieces file = [] ↔ file = [] := by
  have hflatten := flatten_fgetsFrom LINE_LEN (LINE_LEN - 1) [] file
  constructor
  · intro h
    rw [fgetsPieces] at h
    rw [h] at hflatten
    exact hflatten.symm
  · rintro rfl
    rfl

/-- The result of `parseResults` is independent of the start value of `line_len` exactly if
it reads no line: the results file is empty, or one of the files cannot be opened. -/
theorem lengthIndependent_iff {ρ : Type} (pcre_compile : Text → Option ρ)
    (pcre_exec : ρ → Text → Int × List Int) (files : Files) (locals : Indeterminate) :
    LengthIndependent (files.parser pcre_compile pcre_exec) locals files.pieces ↔
      files.results = some [] ∨ files.results = none ∨ files.table_template = none ∨
        files.key_template = none := by
  rw [lengthIndependent_iff_nil]
  rcases files with ⟨key_template, table_template, results⟩
  cases results with
  | none => simp [Files.pieces]
  | some results =>
      cases table_template with
      | none => simp [Files.pieces]
      | some table_template =>
          cases key_template with
          | none => simp [Files.pieces]
          | some key_template => simp [Files.pieces, fgetsPieces_eq_nil_iff]

/-- The regex `(a)=([^b]*)` as it acts on a line `a=..` without a `b`. -/
def pairExec (_ : Unit) (line : Text) : Int × List Int :=
  (3, [0, line.length, 0, 1, 2, line.length])

def pairFiles : Files where
  key_template := some "(a)=([^b]*)\n".toList
  table_template := some []
  results := some "a=1\n".toList

def zeroed : Indeterminate where
  columns := fun _ => []
  line := List.replicate LINE_LEN '\x00'

theorem parser_pairFiles :
    pairFiles.parser (fun _ => some ()) pairExec = ⟨[], [()], pairExec⟩ := by
  have hlines := @fgetsLines_flatMap LINE_LEN ["(a)=([^b]*)".toList] (by decide)
  have hkeys : (parseKeyTemplate (fun _ => some ()) pairFiles.key_template).2.1 = [()] := by
    change (keyLines (fun _ => some ()) [] (fgetsLines LINE_LEN
      (["(a)=([^b]*)".toList].flatMap (· ++ ['\n'])))).1 = _
    rw [hlines]
    decide
  rw [Files.parser, hkeys]
  rfl

/-- With the start value 4 the newline of the line is stripped and with 1 it is sent. -/
theorem lengthIndependent_fails_untrimmed :
    ¬LengthIndependent (pairFiles.parser (fun _ => some ()) pairExec) zeroed pairFiles.pieces := by
  intro h
  have hpieces : pairFiles.pieces = ["a=1\n".toList] := by
    change fgetsFrom LINE_LEN (LINE_LEN - 1) [] ("a=1".toList ++ '\n' :: []) = _
    rw [fgetsFrom_line _ _ _ _ (by decide) (by decide)]
    rfl
  have hsame := h.same 1 4
  rw [parser_pairFiles, hpieces] at hsame
  have hshort : sentPairs ⟨[], [()], pairExec⟩ zeroed ["a=1\n".toList] 4 =
      some [("a".toList, "1".toList)] := by decide +kernel
  have hlong : sentPairs ⟨[], [()], pairExec⟩ zeroed ["a=1\n".toList] 1 =
      some [("a".toList, "1\n".toList)] := by decide +kernel
  rw [hshort, hlong] at hsame
  exact absurd hsame (by decide)

end DaapLog.ResultsTrimming

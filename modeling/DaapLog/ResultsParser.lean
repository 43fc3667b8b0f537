import DaapLog.Runs
import DaapLog.TableRecognition

/-!
The line loop of `parseResults` with everything it sends. The regexes of the key
template are compiled and matched by a library that is not part of the repository;
`pcre_exec` stands for it. An array index out of bounds ends the run without a
result.
-/

namespace DaapLog.ResultsParser

open DaapLog.CStrings
open DaapLog.TableTemplates
open DaapLog.TableRecognition
open DaapLog.Runs

/-- The tables and regexes of the two templates, and the result and output vector of
`pcre_exec` for a regex and a line. -/
structure Parser (ρ : Type) where
  tables : List table_t
  key_regexes : List ρ
  pcre_exec : ρ → Text → Int × List Int

/-- What the loop does to the outside: a call of `pcre_exec` with the regex of an
index, and a call of `sendResult`. -/
inductive Event
  | exec (regex : Nat) (line : Text)
  | send (key val : Text)
  deriving DecidableEq

/-- The locals of `parseResults` that live across lines. -/
structure ParserState extends Recognizer where
  columns : Nat → Text

/-- Copying the column tokens of a row, without their last characters. -/
def storeColumns : Nat → List Text → (Nat → Text) → Option (Nat → Text)
  | _, [], columns => some columns
  | i, columns_token :: rest, columns =>
      if i < MAX_COLS then
        storeColumns (i + 1) rest (Function.update columns i columns_token.dropLast)
      else none

/-- Sending the values of one column; the first component is `val_found`. -/
def sendValues (table : table_t) : Nat → List Text → Option (Nat × List Event)
  | val_found, [] => some (val_found, [])
  | val_found, val_token :: rest =>
      if val_found < MAX_VALS then
        let val_name := table.val_names.getD val_found []
        (sendValues table (val_found + 1) rest).map fun r =>
          if strstr val_name "_skip" then r else (r.1, .send val_name val_token :: r.2)
      else none

def readColumns (table : table_t) :
    List Nat → (Nat → Text) → Nat → Option ((Nat → Text) × List Event)
  | [], columns, _ => some (columns, [])
  | i :: rest, columns, val_found =>
      if i < MAX_COLS then
        if strstr (columns i) table.val_sep then
          (sendValues table val_found (strtok table.val_sep (columns i))).bind fun r =>
            (readColumns table rest
              (Function.update columns i (strtokRest table.val_sep (columns i))) r.1).map fun r' =>
                (r'.1, r.2 ++ r'.2)
        else readColumns table rest columns val_found
      else none

def readRow (table : table_t) (line : Text) (columns : Nat → Text) :
    Option ((Nat → Text) × List Event) :=
  (storeColumns 0 (strtok table.sep line) columns).bind fun columns =>
    readColumns table (List.range table.cols.toNat) columns 0

/-- The part of the line between two offsets of the output vector. -/
def group (line : Text) (ovector : List Int) (j : Nat) : Text :=
  let start := ovector.getD (2 * j) (-1)
  let stop := ovector.getD (2 * j + 1) (-1)
  (line.drop start.toNat).take (stop - start).toNat

/-- The loop over the groups of a match behind the whole match: two at a time are sent
as key and value, and a last one without a partner is left out. -/
def sendPairs : List Text → List Event
  | key :: val :: rest => .send key val :: sendPairs rest
  | _ => []

def tryKeys {ρ : Type} (p : Parser ρ) (line : Text) : List Event :=
  p.key_regexes.zipIdx.flatMap fun r =>
    let (ret, ovector) := p.pcre_exec r.1 line
    .exec r.2 line :: sendPairs ((List.range ret.toNat).tail.map (group line ovector))

def parseLine {ρ : Type} (p : Parser ρ) (s : ParserState) (line : Text) :
    Option (ParserState × List Event) :=
  let r := recognize p.tables s.toRecognizer line
  match r.2 with
  | .skip => some (⟨r.1, s.columns⟩, [])
  | .row t =>
      (readRow (tableAt p.tables t) line s.columns).map fun c => (⟨r.1, c.1⟩, c.2)
  | .keys => some (⟨r.1, s.columns⟩, tryKeys p line)
  | .fault => none

/-- The line loop on the first lines of a file; the array `columns` is not initialised. -/
def parseLines {ρ : Type} (p : Parser ρ) (columns : Nat → Text) (lines : List Text) :
    Option (ParserState × List Event) :=
  run (parseLine p) ⟨{}, columns⟩ lines

theorem parseLine_recognizer {ρ : Type} {p : Parser ρ} {s : ParserState} {line : Text}
    {r : ParserState × List Event} (h : parseLine p s line = some r) :
    r.1.toRecognizer = (recognize p.tables s.toRecognizer line).1 := by
  unfold parseLine at h
  dsimp only at h
  split at h
  · obtain rfl := Option.some.inj h
    rfl
  · obtain ⟨c, -, rfl⟩ := Option.map_eq_some_iff.mp h
    rfl
  · obtain rfl := Option.some.inj h
    rfl
  · exact absurd h (by simp)

/-- The recognition of tables does not depend on what rows and regexes send. -/
theorem parseLines_recognizer {ρ : Type} {p : Parser ρ} {columns : Nat → Text}
    {lines : List Text} {r : ParserState × List Event} (h : parseLines p columns lines = some r) :
    r.1.toRecognizer = recognizeAll p.tables lines :=
  run_project ParserState.toRecognizer (fun s line => (recognize p.tables s line).1)
    (fun _ _ _ h => parseLine_recognizer h) h

/-- A line is counted as a header, read as a row, or tried against every regex. -/
def Handled {ρ : Type} (p : Parser ρ) (s : ParserState) (line : Text) : Prop :=
  (∃ t < p.tables.length,
      (recognize p.tables s.toRecognizer line).1.headers_found t = s.headers_found t + 1) ∨
    (∃ t, (recognize p.tables s.toRecognizer line).2 = .row t) ∨
    ∃ r, parseLine p s line = some r ∧ ∀ i < p.key_regexes.length, .exec i line ∈ r.2

/-- Outside of a table, no table's next header is in the line, and the last table
already has a header. -/
def Swallowed (tables : List table_t) (s : Recognizer) (line : Text) : Prop :=
  s.in_table = false ∧ (∀ t < tables.length, ¬strstr line (nextHeader tables s.headers_found t)) ∧
    tables ≠ [] ∧ s.headers_found (tables.length - 1) ≠ 0

theorem exec_mem_tryKeys {ρ : Type} (p : Parser ρ) (line : Text) {i : Nat}
    (hi : i < p.key_regexes.length) : .exec i line ∈ tryKeys p line := by
  rw [tryKeys, List.mem_flatMap]
  refine ⟨(p.key_regexes[i], i), ?_, List.mem_cons_self⟩
  rw [List.mk_mem_zipIdx_iff_getElem?]
  exact List.getElem?_eq_getElem hi

theorem handled_iff_of_sound {ρ : Type} {p : Parser ρ} (htables : HaveHeaders p.tables)
    {s : ParserState} (hs : Sound p.tables s.toRecognizer) (line : Text) :
    Handled p s line ↔ p.key_regexes = [] ∨ ¬Swallowed p.tables s.toRecognizer line := by
  have htreated := recognize_treated hs htables line
  rw [Handled, parseLine]
  generalize recognize p.tables s.toRecognizer line = r at htreated
  rcases r with ⟨s', action⟩
  cases htreated with
  | counted t ht hin hfound hmore =>
      refine iff_of_true (Or.inl ⟨t, ht, Function.update_self ..⟩) (Or.inr fun hsw => ?_)
      exact hsw.2.1 t ht hfound
  | entered t ht hin hfound hlast =>
      refine iff_of_true (Or.inl ⟨t, ht, Function.update_self ..⟩) (Or.inr fun hsw => ?_)
      exact hsw.2.1 t ht hfound
  | swallowed hin hnone hlast =>
      constructor
      · rintro (⟨t, ht, hcount⟩ | ⟨t, hrow⟩ | ⟨r, hr, hexec⟩)
        · exact absurd hcount (Nat.ne_of_lt (Nat.lt_succ_self _))
        · exact LineAction.noConfusion hrow
        · obtain rfl := Option.some.inj hr
          refine Or.inl (List.length_eq_zero_iff.mp (Nat.eq_zero_of_not_pos fun hpos => ?_))
          exact absurd (hexec 0 hpos) List.not_mem_nil
      · rintro (hnil | hnot)
        · refine Or.inr (Or.inr ⟨_, rfl, fun i hi => ?_⟩)
          rw [hnil] at hi
          exact absurd hi (Nat.not_lt_zero i)
        · exact absurd ⟨hin, hnone, hlast⟩ hnot
  | unmatched hin hnone hlast =>
      refine iff_of_true (Or.inr (Or.inr ⟨_, rfl, fun i hi => exec_mem_tryKeys p line hi⟩))
        (Or.inr fun hsw => ?_)
      exact hsw.2.2.2 (hlast hsw.2.2.1)
  | row t hin htable hsep =>
      refine iff_of_true (Or.inr (Or.inl ⟨t, rfl⟩)) (Or.inr fun hsw => ?_)
      exact absurd (hin.symm.trans hsw.1) (by decide)
  | left t hin htable hsep =>
      refine iff_of_true (Or.inr (Or.inr ⟨_, rfl, fun i hi => exec_mem_tryKeys p line hi⟩))
        (Or.inr fun hsw => ?_)
      exact absurd (hin.symm.trans hsw.1) (by decide)

/-- In every run the lines are handled up to the first one that is swallowed. -/
theorem parseLines_handled_iff {ρ : Type} {p : Parser ρ} (htables : HaveHeaders p.tables)
    (columns : Nat → Text) (lines : List Text) :
    (∀ past line rest r, lines = past ++ line :: rest → parseLines p columns past = some r →
        Handled p r.1 line) ↔
      ∀ past line rest r, lines = past ++ line :: rest → parseLines p columns past = some r →
        p.key_regexes = [] ∨ ¬Swallowed p.tables r.1.toRecognizer line := by
  have hiff (past : List Text) (line : Text) (r : ParserState × List Event)
      (hrun : parseLines p columns past = some r) :
      Handled p r.1 line ↔ p.key_regexes = [] ∨ ¬Swallowed p.tables r.1.toRecognizer line := by
    refine handled_iff_of_sound htables ?_ line
    rw [parseLines_recognizer hrun]
    exact sound_recognizeAll htables past
  constructor
  · intro h past line rest r hlines hrun
    exact (hiff past line r hrun).mp (h past line rest r hlines hrun)
  · intro h past line rest r hlines hrun
    exact (hiff past line r hrun).mpr (h past line rest r hlines hrun)

/-- One table of two headers, and the regex `(\\w+)=(\\w+)` as it acts on the lines
of the example. -/
def timingsParser : Parser Unit :=
  { tables := [timings]
    key_regexes := [()]
    pcre_exec := fun _ line =>
      if line = "x=1" then (3, [0, 3, 0, 1, 2, 3]) else (-1, []) }

/-- The line `x=1` ends the table behind its headers. -/
theorem parseLines_handled_iff_timings :
    ∃ r, parseLines timingsParser (fun _ => []) ["Operation | Pct", "----------+----"] = some r ∧
      r.1.headers_found 0 = 2 ∧ Handled timingsParser r.1 "x=1" := by
  have htables : HaveHeaders timingsParser.tables := by
    unfold HaveHeaders
    decide
  have hfirst : ¬Swallowed [timings] (recognizeAll [timings] []) "Operation | Pct" := by
    unfold Swallowed
    decide
  have hsecond :
      ¬Swallowed [timings] (recognizeAll [timings] ["Operation | Pct"]) "----------+----" := by
    unfold Swallowed
    decide
  have hthird : ¬Swallowed [timings]
      (recognizeAll [timings] ["Operation | Pct", "----------+----"]) "x=1" := by
    unfold Swallowed
    decide
  refine ⟨(⟨recognizeAll [timings] ["Operation | Pct", "----------+----"], fun _ => []⟩, []),
    rfl, by decide, ?_⟩
  refine (parseLines_handled_iff htables (fun _ => [])
    ["Operation | Pct", "----------+----", "x=1"]).mpr ?_
    ["Operation | Pct", "----------+----"] "x=1" [] _ rfl rfl
  intro past line rest r hlines hrun
  rw [parseLines_recognizer hrun]
  rcases past with _ | ⟨first, _ | ⟨second, _ | ⟨third, past⟩⟩⟩
  · obtain rfl := (List.cons.inj hlines).1
    exact .inr hfirst
  · obtain ⟨rfl, htail⟩ := List.cons.inj hlines
    obtain rfl := (List.cons.inj htail).1
    exact .inr hsecond
  · obtain ⟨rfl, htail⟩ := List.cons.inj hlines
    obtain ⟨rfl, hlast⟩ := List.cons.inj htail
    obtain rfl := (List.cons.inj hlast).1
    exact .inr hthird
  · have hlength := congrArg List.length hlines
    simp at hlength

/-- Behind the first header of the table the line `x=1` is lost. -/
theorem parseLines_swallows_pair :
    ∃ r, parseLines timingsParser (fun _ => []) ["Operation | Pct"] = some r ∧
      ¬Handled timingsParser r.1 "x=1" := by
  have htables : HaveHeaders timingsParser.tables := by
    unfold HaveHeaders
    decide
  have hsound := sound_recognizeAll htables ["Operation | Pct"]
  refine ⟨(⟨recognizeAll [timings] ["Operation | Pct"], fun _ => []⟩, []), rfl, ?_⟩
  rw [handled_iff_of_sound htables hsound, not_or, not_not]
  refine ⟨by decide, by decide, ?_, by decide, by decide⟩
  decide

end DaapLog.ResultsParser

import DaapLog.PluginMessages

/-!
The branch of `process` for caliper reports and the choice between the branches for
text messages.
-/

namespace DaapLog.CaliperReports

open DaapLog.CStrings
open DaapLog.OrderedHash
open DaapLog.LinearPatterns
open DaapLog.RubyValues
open DaapLog.PluginActions
open DaapLog.PluginMessages
open DaapLog.RubyStrings (split words HasValue)

def inCode (c : Char) : Bool := c.isAlpha || c.isDigit

/-- `^([a-zA-Z0-9]+),` -/
def codePattern : Pattern := bol ++ plus inCode 1 ++ lit ",".toList 0

/-- `[\s]+(\d+)$` -/
def endPattern : Pattern := plus isspace 0 ++ plus Char.isDigit 1 ++ eol

/-- `\s+(caliper[_]*\d+)=[\\]*["]([^"]+)` -/
def readingPattern : Pattern :=
  plus isspace 0 ++ lit "caliper".toList 1 ++ star (· == '_') 1 ++ plus Char.isDigit 1 ++
    lit "=".toList 0 ++ star (· == '\\') 0 ++ lit "\"".toList 0 ++ plus (· != '"') 2

/-- `\d+\s([\s]+).*` -/
def indentPattern : Pattern :=
  plus Char.isDigit 0 ++ cls isspace 0 ++ plus isspace 1 ++ star inLine 0

/-- `\s+caliper[_]*\d+.*(,timestamp=\d+)$` -/
def tailPattern : Pattern :=
  plus isspace 0 ++ lit "caliper".toList 0 ++ star (· == '_') 0 ++ plus Char.isDigit 0 ++
    star inLine 0 ++ lit ",timestamp=".toList 1 ++ plus Char.isDigit 1 ++ eol

def caliperCode (message : Text) : Option Text :=
  (firstMatch codePattern message).map fun parts => capture codePattern parts 1

def caliperClean (message code : Text) : Text :=
  let message := remove (bol ++ lit code 0 ++ lit ",".toList 0) message
  let message := remove (lit "\n".toList 0 ++ eol) message
  let message := remove (lit "\\n".toList 0 ++ eol) message
  gsub endPattern (fun parts => ",timestamp=".toList ++ capture endPattern parts 1) message

/-- The caliper item of a cleaned message. -/
structure Reading where
  caliper_name : Text
  path_indent : Text
  caliper_metrics : Text

/-- The pattern `([\s]*)(.*)` always matches at the start of the metrics. -/
def caliperReading (message : Text) : Option Reading :=
  (firstMatch readingPattern message).map fun parts =>
    let caliper_metrics := remove (lit "\\".toList 0) (capture readingPattern parts 2)
    { caliper_name := capture readingPattern parts 1
      path_indent := caliper_metrics.takeWhile isspace
      caliper_metrics := (caliper_metrics.dropWhile isspace).takeWhile inLine }

def Reading.caliper_pairs (reading : Reading) : List Text :=
  words (gsub (plus isspace 0) (fun _ => " ".toList) reading.caliper_metrics)

/-- The fields for a path and the measurements behind it; those that are missing
count as 0. -/
def pathFields (rb : Runtime) (path path_indent : Text) (times : List Text) (new_rec : Fields) :
    Fields :=
  let new_rec := set new_rec "path".toList (.str path)
  let new_rec := set new_rec "path_with_indent".toList (.str (path_indent ++ path))
  let new_rec := set new_rec "path_indent_len".toList (.num path_indent.length)
  ((["min_time", "max_time", "avg_time", "time_percentage", "allocated_mb"].map
    String.toList).zipIdx).foldl
      (fun r item => set r item.1 (.num (rb.round ((times[item.2]?).elim 0 rb.to_f) 8))) new_rec

/-- Reports of sap have the number of processes in front of the path. -/
def Reading.fields (rb : Runtime) (code : Text) (reading : Reading) (new_rec : Fields) :
    Option Fields :=
  let new_rec := set new_rec "caliper_name".toList
    (.str (remove (lit "_".toList 0) reading.caliper_name))
  if code = "sap".toList then
    match reading.caliper_pairs, firstMatch indentPattern reading.caliper_metrics with
    | numpe :: path :: times, some parts =>
        some (pathFields rb path (capture indentPattern parts 1) times
          (set new_rec "numpe".toList (.str numpe)))
    | _, _ => none
  else
    match reading.caliper_pairs with
    | path :: times => some (pathFields rb path reading.path_indent times new_rec)
    | [] => none

/-- The words that the branch takes for granted. -/
def Reading.Complete (code : Text) (reading : Reading) : Prop :=
  if code = "sap".toList then
    2 ≤ reading.caliper_pairs.length ∧
      (firstMatch indentPattern reading.caliper_metrics).isSome
  else reading.caliper_pairs ≠ []

def caliperPairs (message code : Text) : List Text :=
  split ',' (gsub tailPattern (fun parts => capture tailPattern parts 1)
    (caliperClean message code))

def newReport (code : Text) : Fields :=
  [("metric".toList, .str (code ++ "_caliper_metrics".toList))]

def caliperFields (rb : Runtime) (message code : Text) : Option Fields :=
  let withReading := (caliperReading (caliperClean message code)).elim (some (newReport code))
    fun reading => reading.fields rb code (newReport code)
  let withItems := withReading.bind fun new_rec => addItems new_rec (caliperPairs message code)
  withItems.map fun new_rec => stamp (dropDashes "job_id".toList new_rec)

def caliper_metrics (rb : Runtime) (message : Text) : List Action :=
  match caliperCode message with
  | none => []
  | some code => pushed (caliperFields rb message code)

theorem Reading.fields_isSome_iff (rb : Runtime) (code : Text) (reading : Reading)
    (new_rec : Fields) : (reading.fields rb code new_rec).isSome ↔ reading.Complete code := by
  rw [Reading.fields, Reading.Complete]
  split
  · rcases reading.caliper_pairs with _ | ⟨numpe, _ | ⟨path, times⟩⟩
    · simp
    · simp
    · cases firstMatch indentPattern reading.caliper_metrics <;> simp
  · cases reading.caliper_pairs <;> simp

/-- The report of a code is complete and each of its items has a value. -/
def CaliperParses (message code : Text) : Prop :=
  (∀ reading, caliperReading (caliperClean message code) = some reading →
    reading.Complete code) ∧ ∀ item ∈ caliperPairs message code, HasValue item

theorem caliperFields_isSome_iff (rb : Runtime) (message code : Text) :
    (caliperFields rb message code).isSome ↔ CaliperParses message code := by
  rw [caliperFields, CaliperParses, Option.isSome_map]
  cases caliperReading (caliperClean message code) with
  | none =>
      rw [Option.elim_none, Option.bind_some, addItems_isSome_iff]
      simp
  | some reading =>
      rw [Option.elim_some]
      simp only [Option.some.injEq, forall_eq']
      rw [← Reading.fields_isSome_iff rb code reading (newReport code)]
      cases reading.fields rb code (newReport code) with
      | none => simp
      | some new_rec => simp [addItems_isSome_iff]

end DaapLog.CaliperReports

import DaapLog.InfluxRoundTrip
import DaapLog.PluginChildren

/-!
The lines of the parser of Pavilion results. Every value is pasted as it is, and only the
jobs of snap get a measurement in front of their tags.
-/

namespace DaapLog.PavilionResults

open DaapLog.CStrings
open DaapLog.InfluxRoundTrip
open DaapLog.LineProtocol
open DaapLog.PluginChildren (names)

/-- A float as far as `%f` shows it, which rounds to millionths. -/
inductive PyFloat
  | nan
  | inf (negative : Bool)
  | finite (negative : Bool) (millionths : Nat)

def PyFloat.sign (negative : Bool) : Text := if negative then ['-'] else []

/-- The conversion `%f`. -/
def PyFloat.text : PyFloat → Text
  | .nan => "nan"
  | .inf negative => sign negative ++ "inf"
  | .finite negative millionths =>
      sign negative ++ Nat.toDigits 10 (millionths / 10 ^ 6) ++ '.' ::
        (Nat.toDigits 10 (10 ^ 6 + millionths % 10 ^ 6)).tail

/-- The part `sched` of a result; its keys are optional. -/
structure Sched where
  alloc_nodes : Option Text
  alloc_cpu_total : Option Text
  alloc_max_mem : Option Text

/-- A line of the results file, by the texts that `%s` prints. `duration` is what `float`
makes of it, nothing if that raises `ValueError`. -/
structure Job where
  name : Text
  job_id : Text
  started : Text
  finished : Text
  duration : Option PyFloat
  user : Text
  sys_name : Text
  sched : Sched
  result : Text
  execution_time : Option Text
  grind_time : Option Text
  allocated_words : Option Text

namespace Job

variable (jobj : Job)

/-- `replace(" ", "T")`. -/
def withT (date : Text) : Text := date.map fun c => if c = ' ' then 'T' else c

def job_started : Text := withT jobj.started

def job_ended : Text := withT jobj.finished

def job_duration : PyFloat := jobj.duration.getD (.finite false 0)

def isSnap : Bool := strstr jobj.name "snap"

/-- A piece `,key=%s` of a format. -/
def piece (key : String) (value : Text) : Text := ',' :: key.toList ++ '=' :: value

/-- The line that is sent at `time`, without the two newlines behind it. -/
def job_info_msg (time : Int) : Text :=
  let msg := List.flatten
    [piece "sys_name" jobj.sys_name, piece "job_name" jobj.name, piece "job_id" jobj.job_id,
      piece "job_started" jobj.job_started, piece "job_ended" jobj.job_ended,
      piece "job_duration" jobj.job_duration.text, piece "job_result" jobj.result,
      piece "job_user" jobj.user, piece "job_nodes" (jobj.sched.alloc_nodes.getD ['0']),
      piece "job_cpu_total" (jobj.sched.alloc_cpu_total.getD ['0']),
      piece "job_max_mem" (jobj.sched.alloc_max_mem.getD ['0'])]
  let msg :=
    if jobj.isSnap then
      "snap_pavilion_parser" ++ (msg ++ List.flatten
        [piece "execution_time" (jobj.execution_time.getD ['0']),
          piece "grind_time" (jobj.grind_time.getD ['0']),
          piece "allocated_words" (jobj.allocated_words.getD ['0'])])
    else msg
  msg ++ (" message=\"daap_pavilion_parser\" " ++ decimal (time * 1000000000))

/-- What is formatted into the line. -/
def tags : List (Text × Text) :=
  [("sys_name".toList, jobj.sys_name), ("job_name".toList, jobj.name),
    ("job_id".toList, jobj.job_id), ("job_started".toList, jobj.job_started),
    ("job_ended".toList, jobj.job_ended), ("job_duration".toList, jobj.job_duration.text),
    ("job_result".toList, jobj.result), ("job_user".toList, jobj.user),
    ("job_nodes".toList, jobj.sched.alloc_nodes.getD ['0']),
    ("job_cpu_total".toList, jobj.sched.alloc_cpu_total.getD ['0']),
    ("job_max_mem".toList, jobj.sched.alloc_max_mem.getD ['0'])] ++
  if jobj.isSnap then
    [("execution_time".toList, jobj.execution_time.getD ['0']),
      ("grind_time".toList, jobj.grind_time.getD ['0']),
      ("allocated_words".toList, jobj.allocated_words.getD ['0'])]
  else []

/-- The texts that come from the results file. -/
def texts : List Text :=
  [jobj.sys_name, jobj.name, jobj.job_id, jobj.job_started, jobj.job_ended, jobj.result,
    jobj.user] ++
  [jobj.sched.alloc_nodes, jobj.sched.alloc_cpu_total, jobj.sched.alloc_max_mem,
    jobj.execution_time, jobj.grind_time, jobj.allocated_words].flatMap Option.toList

def point (time : Int) : Point where
  measurement := if jobj.isSnap then "snap_pavilion_parser" else []
  tags := jobj.tags
  field := ("message", "daap_pavilion_parser")
  stamp := decimal (time * 1000000000)

theorem job_info_msg_eq_renderPoint (time : Int) :
    jobj.job_info_msg time = renderPoint (jobj.point time) := by
  have hmessage : (" message=\"daap_pavilion_parser\" " : Text) = ' ' :: ("message".toList ++
      '=' :: '"' :: ("daap_pavilion_parser".toList ++ ['"', ' '])) := by
    decide
  rw [job_info_msg, renderPoint, hmessage]
  by_cases hsnap : jobj.isSnap = true
  · simp only [point, tags, renderTags, if_pos hsnap, List.flatMap_append, List.append_assoc]
    rfl
  · simp only [point, tags, renderTags, if_neg hsnap, List.append_nil]
    rfl

end Job

/-- A line is a point with these tags whose measurement the plugin accepts. -/
def Accepted (line : Text) (tags : List (Text × Text)) : Prop :=
  ∃ point, readPoint line = some point ∧ point.measurement ≠ [] ∧ point.measurement ∈ names ∧
    point.tags = tags

theorem tagValue_of_chars {text : Text} (hne : text ≠ [])
    (h : ∀ c ∈ text, c ≠ ',' ∧ c ≠ ' ' ∧ c ≠ '\\') : TagValue text := by
  refine ⟨hne, fun c hc => ?_, fun hlast => (h _ (List.mem_of_getLast? hlast)).2.2 rfl⟩
  obtain ⟨hcomma, hspace, -⟩ := h c hc
  simp [tagStop, hcomma, hspace]

theorem tagValue_getD_iff {text : Option Text} :
    TagValue (text.getD ['0']) ↔ ∀ t ∈ text.toList, TagValue t := by
  cases text with
  | none => exact iff_of_true (by decide) nofun
  | some text => exact List.forall_mem_singleton.symm

theorem tagValue_pyFloat (x : PyFloat) : TagValue x.text := by
  have hdigit {n : Nat} {c : Char} (hc : c ∈ Nat.toDigits 10 n) :
      c ≠ ',' ∧ c ≠ ' ' ∧ c ≠ '\\' := by
    have hc := isDigit_of_mem_toDigits hc
    refine ⟨?_, ?_, ?_⟩
    · rintro rfl
      exact absurd hc (by decide)
    · rintro rfl
      exact absurd hc (by decide)
    · rintro rfl
      exact absurd hc (by decide)
  cases x with
  | nan => decide
  | inf negative => cases negative <;> decide
  | finite negative millionths =>
      refine tagValue_of_chars (by simp [PyFloat.text]) fun c hc => ?_
      simp only [PyFloat.text, List.mem_append, List.mem_cons] at hc
      rcases hc with (hsign | hwhole) | rfl | hpart
      · cases negative with
        | true => exact List.mem_singleton.mp hsign ▸ by decide
        | false => exact absurd hsign List.not_mem_nil
      · exact hdigit hwhole
      · decide
      · exact hdigit (List.mem_of_mem_tail hpart)

namespace Job

variable {jobj : Job}

theorem tagValues_iff (hsnap : jobj.isSnap = true) :
    (∀ tag ∈ jobj.tags, TagValue tag.2) ↔ ∀ text ∈ jobj.texts, TagValue text := by
  simp only [tags, texts, if_pos hsnap, List.flatMap_cons, List.flatMap_nil, List.forall_mem_append,
    List.forall_mem_cons, tagValue_getD_iff, tagValue_pyFloat, true_and, and_assoc,
    List.not_mem_nil, false_imp_iff, implies_true, and_true]

theorem measurement_of_snap (hsnap : jobj.isSnap = true) (time : Int) :
    (jobj.point time).measurement = "snap_pavilion_parser" := if_pos hsnap

theorem measurement_of_other (hother : ¬jobj.isSnap = true) (time : Int) :
    (jobj.point time).measurement = [] := if_neg hother

theorem clean_point (jobj : Job) (time : Int) :
    Clean tagStop (jobj.point time).measurement ∧
      (∀ tag ∈ (jobj.point time).tags, Clean keyStop tag.1) ∧
      Clean keyStop (jobj.point time).field.1 ∧ '"' ∉ (jobj.point time).stamp ∧
      Plain (jobj.point time).field.2 := by
  refine ⟨?_, ?_, by change Clean keyStop "message"; decide, quote_not_mem_decimal _,
    by change Plain "daap_pavilion_parser"; decide⟩
  · by_cases hsnap : jobj.isSnap = true
    · rw [measurement_of_snap hsnap]
      decide
    · rw [measurement_of_other hsnap]
      decide
  · simp only [point, tags, List.forall_mem_append, List.forall_mem_cons]
    refine ⟨by decide, ?_⟩
    split
    · simp only [List.forall_mem_cons]
      decide
    · exact fun _ h => absurd h List.not_mem_nil

/-- The plugin reads a line back to the values that were formatted into it exactly if the
job is one of snap and the texts of the results file are nonempty and need no escaping. -/
theorem job_info_msg_accepted_iff (jobj : Job) (time : Int) :
    Accepted (jobj.job_info_msg time) jobj.tags ↔
      "snap".toList <:+: jobj.name ∧ ∀ text ∈ jobj.texts, TagValue text := by
  obtain ⟨hmeasurement, hkeys, hkey, hstamp, hfield⟩ := clean_point jobj time
  have hsnap : jobj.isSnap = true ↔ "snap".toList <:+: jobj.name := decide_eq_true_iff
  rw [← hsnap, job_info_msg_eq_renderPoint]
  constructor
  · rintro ⟨read, hread, hne, -, htags⟩
    obtain ⟨hname, hvalues⟩ := tags_of_readPoint hmeasurement hkeys hread
    have hsnap : jobj.isSnap = true := by
      by_contra hother
      exact hne (hname.trans (measurement_of_other hother time))
    exact ⟨hsnap, (tagValues_iff hsnap).mp (hvalues htags)⟩
  · rintro ⟨hsnap, htexts⟩
    refine ⟨jobj.point time, ?_, ?_, ?_, rfl⟩
    · rw [readPoint_renderPoint_iff hmeasurement hkeys hkey hstamp]
      exact ⟨(tagValues_iff hsnap).mpr htexts, hfield⟩
    · rw [measurement_of_snap hsnap]
      decide
    · rw [measurement_of_snap hsnap]
      decide

end Job

/-- A job on two nodes that is not one of snap. -/
def hplJob : Job where
  name := "hpl.two_nodes"
  job_id := "4711"
  started := "2020-03-11 10:15:30.000000"
  finished := "2020-03-11 10:20:30.000000"
  duration := some (.finite false 300000000)
  user := "jdoe"
  sys_name := "grizzly"
  sched := ⟨some "2", none, none⟩
  result := "PASS"
  execution_time := none
  grind_time := none
  allocated_words := none

def snapJob : Job := { hplJob with name := "snap.two_nodes", result := "FAIL by timeout" }

/-- The line of the first job starts with a comma, that of the second has a blank in a value. -/
theorem job_info_msg_rejected :
    ¬Accepted (hplJob.job_info_msg 1583922030) hplJob.tags ∧
      ¬Accepted (snapJob.job_info_msg 1583922030) snapJob.tags := by
  constructor
  · rintro ⟨read, hread, hne, -⟩
    obtain ⟨hmeasurement, hkeys, -⟩ := Job.clean_point hplJob 1583922030
    rw [Job.job_info_msg_eq_renderPoint] at hread
    exact hne (tags_of_readPoint hmeasurement hkeys hread).1
  · rintro ⟨read, hread, -, -, htags⟩
    obtain ⟨hmeasurement, hkeys, -⟩ := Job.clean_point snapJob 1583922030
    rw [Job.job_info_msg_eq_renderPoint] at hread
    have hvalues := (tags_of_readPoint hmeasurement hkeys hread).2 htags
    have hresult := hvalues ("job_result", "FAIL by timeout") (by decide)
    exact absurd hresult (by decide)

end DaapLog.PavilionResults

import DaapLog.ErrorIsolation
import DaapLog.FileLines
import DaapLog.JobRecords
import DaapLog.PavilionResults

/-!
The parser of the results of acceptance tests from the file that it reads to the records of
the plugin. Only the jobs of snap get there.
-/

namespace DaapLog.AcceptanceResults

open DaapLog.ChildRecords
open DaapLog.ChunkBoundaries
open DaapLog.CStrings
open DaapLog.ErrorIsolation
open DaapLog.FileLines
open DaapLog.InfluxRoundTrip
open DaapLog.JobRecords
open DaapLog.LifeCycleMessages
open DaapLog.LineProtocol
open DaapLog.OrderedHash
open DaapLog.PavilionResults
open DaapLog.PluginChildren
open DaapLog.PluginProcess
open DaapLog.RubyValues

/-- How a call of `sendRecord` ends. It prints the errors of `connect` and `write`, and the
record is lost; any other error is not caught. -/
inductive Sending
  | delivered
  | lost
  | raised

/-- What a run gets from outside. `loads` is what `json.loads` and the lookups in its result
make of a line, nothing if one of them raises; the numbers are those of the lines. -/
structure Surroundings where
  loads : Text → Option Job
  time : Nat → Int
  sendRecord : Nat → Sending

/-- The loop over the lines of the results file, of which the first has the number `n`: the
records that arrive, with their jobs. -/
def mainLoop (w : Surroundings) : Nat → List Text → List (Job × Text)
  | _, [] => []
  | n, line :: rest =>
      match w.loads line with
      | none => []
      | some jobj =>
          match w.sendRecord n with
          | .delivered =>
              (jobj, jobj.job_info_msg (w.time n) ++ ['\n', '\n']) :: mainLoop w (n + 1) rest
          | .lost => mainLoop w (n + 1) rest
          | .raised => []

def main (w : Surroundings) (results_file : Text) : List (Job × Text) :=
  mainLoop w 0 (fileLines results_file)

/-- A line that telegraf takes; a point needs a measurement. -/
def Measured (line : Text) : Bool := (readPoint line).any fun point => point.measurement ≠ []

/-- The lines of a record that telegraf takes. -/
def linesOf (record : Text) : List Text :=
  ((fileLines record).map fun line => line.filter fun c => c ≠ '\n').filter Measured

/-- A job whose texts need no escaping where they become tags that telegraf takes. -/
structure Sendable (jobj : Job) : Prop where
  one_line : ∀ text ∈ jobj.texts, '\n' ∉ text
  tags : jobj.isSnap = true → ∀ text ∈ jobj.texts, TagValue text

def copiedTags : List Text :=
  ["job_result", "job_started", "job_ended", "test_node_list"].map String.toList

/-- What the part of the plugin for snap sets. -/
def snapKeys : List Text :=
  ["metric".toList, "jobid".toList] ++ copiedTags ++ Child.snapFloats ++ Child.snapInts

/-- The record of a job of snap. The name and the user of the job are those that telegraf
knows, and `test_node_list` is never sent. -/
structure SnapReport (rb : Runtime) (jobinfo node : Text) (jobj : Job) (record : Record) : Prop where
  metric : get record "metric".toList = some (.str "snap_pavilion_parser".toList)
  jobid : get record "jobid".toList = some (.str jobj.job_id)
  texts : ∀ tag ∈ jobj.tags, tag.1 ∈ copiedTags → get record tag.1 = some (.str tag.2)
  floats : ∀ tag ∈ jobj.tags, tag.1 ∈ Child.snapFloats →
    get record tag.1 = some (.num (rb.to_f tag.2))
  ints : ∀ tag ∈ jobj.tags, tag.1 ∈ Child.snapInts →
    get record tag.1 = some (.num (RubyStrings.to_i tag.2))
  host : get record "host".toList = some (.str (clean_host node))
  job : ∀ key value, key ≠ "jobid".toList → get (jobInfo jobinfo) key = some value →
    get record key = some (.str value)
  other : ∀ key, key ∉ snapKeys → key ∉ originKeys → get record key = none

section Numbers

variable (c : Child)

theorem get_addNumbers_of_mem {convert : Val → Option ℚ} {items : List Text} {item : Text}
    (hitem : item ∈ items) {new_rec r : Record} (h : c.addNumbers convert items new_rec = some r) :
    ∃ x, convert (fetch c.tags item) = some x ∧ get r item = some (.num x) := by
  induction items generalizing new_rec with
  | nil => cases hitem
  | cons head items ih =>
      rw [Child.addNumbers, List.foldlM_cons] at h
      obtain ⟨r', hr', hrest⟩ := Option.bind_eq_some_iff.mp h
      obtain ⟨x, hx, rfl⟩ := Option.map_eq_some_iff.mp hr'
      by_cases hlater : item ∈ items
      · exact ih hlater hrest
      · obtain rfl : item = head := (List.mem_cons.mp hitem).resolve_right hlater
        refine ⟨x, hx, ?_⟩
        rw [get_addNumbers c hlater hrest, get_set_self]

theorem get_copyTags_of_mem {items : List Text} {item : Text} (hitem : item ∈ items)
    (new_rec : Record) : get (c.copyTags items new_rec) item = some (fetch c.tags item) := by
  induction items generalizing new_rec with
  | nil => cases hitem
  | cons head items ih =>
      rw [Child.copyTags, List.foldl_cons]
      by_cases hlater : item ∈ items
      · exact ih hlater _
      · obtain rfl : item = head := (List.mem_cons.mp hitem).resolve_right hlater
        exact (get_copyTags c hlater _).trans (get_set_self _ _ _)

end Numbers

section Lines

variable {jobj : Job}

theorem linesOf_record {line : Text} (hline : '\n' ∉ line) :
    linesOf (line ++ ['\n', '\n']) = [line].filter Measured := by
  have hlines : fileLines (line ++ ['\n', '\n']) = [line ++ ['\n'], ['\n']] := by
    rw [fileLines_cons hline]
    rfl
  have hkept : (line.filter fun c => c ≠ '\n') = line := by
    refine List.filter_eq_self.mpr fun c hc => decide_eq_true ?_
    rintro rfl
    exact hline hc
  have hempty : Measured [] = false := by decide
  rw [linesOf, hlines, List.map_cons, List.map_singleton, List.filter_append, hkept]
  simp [hempty, List.filter_cons]

theorem newline_not_mem_renderPoint {point : Point} (hmeasurement : '\n' ∉ point.measurement)
    (htags : ∀ tag ∈ point.tags, '\n' ∉ tag.1 ∧ '\n' ∉ tag.2) (hkey : '\n' ∉ point.field.1)
    (hvalue : '\n' ∉ point.field.2) (hstamp : '\n' ∉ point.stamp) : '\n' ∉ renderPoint point := by
  have hrendered : '\n' ∉ renderTags point.tags := by
    rw [renderTags, List.mem_flatMap]
    rintro ⟨tag, htag, hmem⟩
    obtain ⟨htagKey, htagValue⟩ := htags tag htag
    simp [htagKey, htagValue] at hmem
  simp [renderPoint, hmeasurement, hrendered, hkey, hvalue, hstamp]

/-- The tags are the texts of the results file, the duration and zeros. -/
theorem forall_tags {P : Text → Prop} (hduration : P jobj.job_duration.text) (hzero : P ['0'])
    (h : ∀ text ∈ jobj.texts, P text) : ∀ tag ∈ jobj.tags, P tag.2 := by
  have hdefault {text : Option Text} (htext : ∀ t ∈ text.toList, P t) : P (text.getD ['0']) := by
    cases text with
    | none => exact hzero
    | some t => exact htext t (List.mem_singleton_self t)
  simp only [Job.texts, List.flatMap_cons, List.flatMap_nil, List.forall_mem_append,
    List.forall_mem_cons, List.not_mem_nil, false_imp_iff, implies_true, and_true, and_assoc] at h
  obtain ⟨hsys, hname, hid, hstarted, hended, hresult, huser, hnodes, hcpu, hmem, hexecution, hgrind,
    hwords⟩ := h
  rw [Job.tags, List.forall_mem_append]
  constructor
  · simp only [List.forall_mem_cons]
    exact ⟨hsys, hname, hid, hstarted, hended, hduration, hresult, huser, hdefault hnodes,
      hdefault hcpu, hdefault hmem, List.forall_mem_nil _⟩
  · split
    · simp only [List.forall_mem_cons]
      exact ⟨hdefault hexecution, hdefault hgrind, hdefault hwords, List.forall_mem_nil _⟩
    · exact List.forall_mem_nil _

theorem newline_not_mem_pyFloat (x : PyFloat) : '\n' ∉ x.text := by
  have hdigits (n : Nat) : '\n' ∉ Nat.toDigits 10 n := by
    intro hmem
    exact absurd (isDigit_of_mem_toDigits hmem) (by decide)
  cases x with
  | nan => decide
  | inf negative => cases negative <;> decide
  | finite negative millionths =>
      have hsign : '\n' ∉ PyFloat.sign negative := by cases negative <;> decide
      have hpart (n : Nat) : '\n' ∉ (Nat.toDigits 10 n).tail := fun hmem =>
        hdigits n (List.mem_of_mem_tail hmem)
      simp [PyFloat.text, hsign, hdigits, hpart]

theorem newline_not_mem_decimal (x : Int) : '\n' ∉ decimal x := by
  intro hmem
  rcases mem_decimal hmem with hdigit | hdash
  · exact absurd hdigit (by decide)
  · exact absurd hdash (by decide)

theorem newline_not_mem_job_info_msg (h : ∀ text ∈ jobj.texts, '\n' ∉ text) (time : Int) :
    '\n' ∉ jobj.job_info_msg time := by
  have hkeys : ∀ tag ∈ jobj.tags, '\n' ∉ tag.1 := by
    rw [Job.tags, List.forall_mem_append]
    refine ⟨by simp only [List.forall_mem_cons]; decide, ?_⟩
    split
    · simp only [List.forall_mem_cons]
      decide
    · exact List.forall_mem_nil _
  have hvalues := forall_tags (newline_not_mem_pyFloat jobj.job_duration) (by decide) h
  rw [Job.job_info_msg_eq_renderPoint]
  refine newline_not_mem_renderPoint ?_ (fun tag htag => ⟨hkeys tag htag, hvalues tag htag⟩) ?_ ?_
    (newline_not_mem_decimal _)
  · by_cases hsnap : jobj.isSnap = true
    · rw [Job.measurement_of_snap hsnap]
      decide
    · rw [Job.measurement_of_other hsnap]
      decide
  · change '\n' ∉ "message".toList
    decide
  · change '\n' ∉ "daap_pavilion_parser".toList
    decide

/-- The line of a job of snap is read back to what was put in. -/
theorem readPoint_job_info_msg (h : Sendable jobj) (hsnap : jobj.isSnap = true) (time : Int) :
    readPoint (jobj.job_info_msg time) = some (jobj.point time) := by
  obtain ⟨hmeasurement, hkeys, hkey, hstamp, hfield⟩ := Job.clean_point jobj time
  rw [Job.job_info_msg_eq_renderPoint, readPoint_renderPoint_iff hmeasurement hkeys hkey hstamp]
  exact ⟨(Job.tagValues_iff hsnap).mpr (h.tags hsnap), hfield⟩

theorem measured_job_info_msg (h : Sendable jobj) (time : Int) :
    Measured (jobj.job_info_msg time) = jobj.isSnap := by
  cases hsnap : jobj.isSnap with
  | true =>
      rw [Measured, readPoint_job_info_msg h hsnap, Option.any_some,
        Job.measurement_of_snap hsnap]
      rfl
  | false =>
      have hother : ¬jobj.isSnap = true := by simp [hsnap]
      obtain ⟨hmeasurement, hkeys, -⟩ := Job.clean_point jobj time
      rw [Measured, Option.any_eq_false]
      intro read hread
      rw [Job.job_info_msg_eq_renderPoint] at hread
      rw [(tags_of_readPoint hmeasurement hkeys hread).1, Job.measurement_of_other hother]
      rfl

/-- A job that is not one of snap does not get to telegraf. -/
theorem linesOf_job_info_msg (h : Sendable jobj) (time : Int) :
    linesOf (jobj.job_info_msg time ++ ['\n', '\n']) =
      if jobj.isSnap then [jobj.job_info_msg time] else [] := by
  rw [linesOf_record (newline_not_mem_job_info_msg h.one_line time), List.filter_cons,
    measured_job_info_msg h time]
  rfl

end Lines

section Records

variable {rb : Runtime} {jobinfo node : Text} {jobj : Job} {time : Int} {c : Child} {r : Record}

/-- The part for snap leaves all other keys alone. -/
theorem get_snap {key : Text} (hkey : key ∉ snapKeys) (h : c.snap rb = some r) :
    get r key = get c.newRec key := by
  simp only [snapKeys, List.mem_append, List.mem_cons, List.not_mem_nil, or_false, not_or] at hkey
  obtain ⟨⟨⟨⟨hmetric, hjobid⟩, htexts⟩, hfloatKeys⟩, hintKeys⟩ := hkey
  obtain ⟨ints, hints, rfl⟩ := Option.map_eq_some_iff.mp h
  obtain ⟨floats, hfloats, hints⟩ := Option.bind_eq_some_iff.mp hints
  rw [get_set_of_ne hjobid, get_addNumbers c hintKeys hints, get_addNumbers c hfloatKeys hfloats,
    Child.snapTexts]
  exact (get_copyTags c htexts _).trans (get_set_of_ne hmetric _ _)

theorem snapReport_of_snap (hconveys : Conveys jobinfo node (jobj.point time) c)
    (hbears : Bears c "daap_pavilion_parser".toList) (h : c.snap rb = some r) :
    SnapReport rb jobinfo node jobj r := by
  have hfetch : ∀ tag ∈ jobj.tags, fetch c.tags tag.1 = .str tag.2 := by
    intro tag htag
    rw [fetch, hconveys.tags tag htag]
    rfl
  have hcopied : ∀ key ∈ copiedTags,
      key ≠ "jobid".toList ∧ key ∉ Child.snapFloats ∧ key ∉ Child.snapInts := by
    decide
  have hfloatKeys : ∀ key ∈ Child.snapFloats, key ≠ "jobid".toList ∧ key ∉ Child.snapInts := by
    decide
  have hintKeys : ∀ key ∈ Child.snapInts, key ≠ "jobid".toList := by
    decide
  have hjobKeys : ∀ key ∈ jobKeys, key ≠ "jobid".toList → key ∉ snapKeys := by
    decide
  have hid : ("job_id".toList, jobj.job_id) ∈ jobj.tags :=
    List.mem_append_left _ (.tail _ (.tail _ (.head _)))
  obtain ⟨ints, hints, hset⟩ := Option.map_eq_some_iff.mp h
  obtain ⟨floats, hfloats, hints⟩ := Option.bind_eq_some_iff.mp hints
  refine ⟨snap_metric rb c h, ?_, ?_, ?_, ?_, ?_, ?_, ?_⟩
  · rw [← hset, get_set_self, hfetch _ hid]
  · intro tag htag hkey
    obtain ⟨hjobid, hnotFloat, hnotInt⟩ := hcopied tag.1 hkey
    rw [← hset, get_set_of_ne hjobid, get_addNumbers c hnotInt hints,
      get_addNumbers c hnotFloat hfloats, Child.snapTexts]
    exact (get_copyTags_of_mem c hkey _).trans (congrArg some (hfetch tag htag))
  · intro tag htag hkey
    obtain ⟨hjobid, hnotInt⟩ := hfloatKeys tag.1 hkey
    obtain ⟨x, hx, hvalue⟩ := get_addNumbers_of_mem c hkey hfloats
    rw [hfetch tag htag] at hx
    rw [← hset, get_set_of_ne hjobid, get_addNumbers c hnotInt hints, hvalue]
    exact congrArg (fun x => some (Val.num x)) (Option.some.inj hx).symm
  · intro tag htag hkey
    obtain ⟨x, hx, hvalue⟩ := get_addNumbers_of_mem c hkey hints
    rw [hfetch tag htag] at hx
    rw [← hset, get_set_of_ne (hintKeys tag.1 hkey), hvalue]
    exact congrArg (fun x => some (Val.num x)) (Option.some.inj hx).symm
  · rw [get_snap (by decide) h, ← hconveys.host]
    exact hbears.host
  · intro key value hjobid hvalue
    rw [← hconveys.jobinfo] at hvalue
    rw [get_snap (hjobKeys key (jobInfo_keys c.jobinfo _ (mem_of_get hvalue)) hjobid) h]
    exact hbears.job hvalue
  · intro key hsnapKey horigin
    rw [get_snap hsnapKey h]
    exact hbears.told.other (by decide) (by decide) key horigin

theorem snap_of_conveys (hconveys : Conveys jobinfo node (jobj.point time) c)
    (hsnap : jobj.isSnap = true) (rb : Runtime) : ∃ r, c.snap rb = some r := by
  have hkeys : jobj.tags.map Prod.fst = (["sys_name", "job_name", "job_id", "job_started",
      "job_ended", "job_duration", "job_result", "job_user", "job_nodes", "job_cpu_total",
      "job_max_mem", "execution_time", "grind_time", "allocated_words"].map String.toList) := by
    rw [Job.tags, if_pos hsnap]
    rfl
  have htagged : ∀ item ∈ Child.snapFloats ++ Child.snapInts, item ∈ jobj.tags.map Prod.fst := by
    rw [hkeys]
    decide
  refine Option.isSome_iff_exists.mp ((snap_isSome_iff rb c).mpr fun item hitem => ?_)
  obtain ⟨tag, htag, rfl⟩ := List.mem_map.mp (htagged item hitem)
  rw [fetch, hconveys.tags tag htag]
  trivial

theorem actions_of_snap (hname : c.name = "snap_pavilion_parser".toList)
    (hbears : Bears c "daap_pavilion_parser".toList) (hjob : CarriesJob c.jobinfo)
    (h : c.snap rb = some r) (time : Int) : c.actions rb time = [.push r] := by
  obtain ⟨job, hsome⟩ := Option.isSome_iff_exists.mp (jobOf_isSome hjob)
  have hmessage : c.isMessage "daap_pavilion_parser".toList = true :=
    (isMessage_iff hbears.text _).mpr rfl
  rw [Child.actions, hsome]
  simp only [hbears.finalName, hname]
  rw [if_neg (by decide), if_neg (by decide), if_neg (by decide), if_neg (by decide),
    if_pos trivial, Child.snapActions, if_pos hmessage, h]

/-- A child for a job of snap is one record. -/
theorem reports_of_relays {child : Record} (hjob : CarriesJob jobinfo) (h : Sendable jobj)
    (hsnap : jobj.isSnap = true) (hrelays : Relays jobinfo node (jobj.job_info_msg time) child)
    (rb : Runtime) :
    ∃ m out, (∀ time, childActions rb time (.hash child) = [.push m]) ∧
      stampRecord rb m = some out ∧ SnapReport rb jobinfo node jobj out.2 := by
  have hpoint := readPoint_job_info_msg h hsnap time
  have hmeasurement := Job.measurement_of_snap hsnap time
  have hlisted : (jobj.point time).measurement ∈ names := by
    rw [hmeasurement]
    decide
  have hother : (jobj.point time).measurement ∉
      ["pre_team_pavilion_parser".toList, "pre_team_pavilion_hpl_parser".toList] := by
    rw [hmeasurement]
    decide
  obtain ⟨c, hconveys, hactions⟩ := conveys_of_relays hpoint hlisted rfl hrelays
  have hquiet : Quiet jobinfo "daap_pavilion_parser".toList := .inr (by decide)
  have hbears := hconveys.bears hother hquiet
  obtain ⟨r, hr⟩ := snap_of_conveys hconveys hsnap rb
  have hstamp : stampRecord rb r = some (fetch r "timestamp".toList, r) := by
    rw [stampRecord, snap_untimed rb c hr]
    rfl
  have hsnapActions := actions_of_snap (hconveys.name.trans hmeasurement) hbears
    (hconveys.jobinfo ▸ hjob) hr
  exact ⟨r, _, fun time => (hactions rb time).trans (hsnapActions time), hstamp,
    snapReport_of_snap hconveys hbears hr⟩

end Records

section Files

variable {w : Surroundings} {jobinfo node : Text}

theorem record_of_mainLoop {n : Nat} {lines : List Text} {sent : Job × Text}
    (h : sent ∈ mainLoop w n lines) :
    ∃ time, sent.2 = sent.1.job_info_msg time ++ ['\n', '\n'] := by
  induction lines generalizing n with
  | nil => cases h
  | cons line rest ih =>
      rw [mainLoop] at h
      split at h
      · cases h
      · split at h
        · rcases List.mem_cons.mp h with rfl | h
          · exact ⟨_, rfl⟩
          · exact ih h
        · exact ih h
        · cases h

/-- The children of telegraf are those of the jobs of snap. -/
theorem relays_of_sent {sents : List (Job × Text)}
    (hsents : ∀ sent ∈ sents, Sendable sent.1 ∧
      ∃ time, sent.2 = sent.1.job_info_msg time ++ ['\n', '\n']) {children : List Record}
    (h : List.Forall₂ (Relays jobinfo node) (sents.flatMap fun sent => linesOf sent.2) children) :
    List.Forall₂ (fun jobj child => Sendable jobj ∧ jobj.isSnap = true ∧
        ∃ time, Relays jobinfo node (jobj.job_info_msg time) child)
      ((sents.map (·.1)).filter Job.isSnap) children := by
  induction sents generalizing children with
  | nil =>
      obtain rfl := List.forall₂_nil_left_iff.mp h
      exact .nil
  | cons sent sents ih =>
      obtain ⟨⟨hsendable, time, hrecord⟩, hlater⟩ := List.forall_mem_cons.mp hsents
      rw [List.flatMap_cons, hrecord, linesOf_job_info_msg hsendable] at h
      rw [List.map_cons, List.filter_cons]
      split at h
      · next hsnap =>
          obtain ⟨child, children, hchild, hrest, rfl⟩ := List.forall₂_cons_left_iff.mp h
          rw [if_pos hsnap]
          exact .cons ⟨hsendable, hsnap, time, hchild⟩ (ih hlater hrest)
      · next hsnap =>
          rw [if_neg hsnap]
          exact ih hlater h

def passedSnap : Job := { hplJob with name := "snap.two_nodes" }

/-- A run over the results of two jobs, both of which arrive. -/
def twoResults : Surroundings where
  loads line :=
    if line = "hpl\n".toList then some hplJob
    else if line = "snap\n".toList then some passedSnap else none
  time _ := 1583922030
  sendRecord _ := .delivered

def snapChild : Record :=
  [("name".toList, .str "snap_pavilion_parser".toList),
    ("tags".toList, .hash (("host".toList, .str "gr0959".toList) ::
      ("jobinfo".toList, .str flagJob) :: passedSnap.tags.map fun tag => (tag.1, .str tag.2))),
    ("fields".toList, .hash [("message".toList, .str "daap_pavilion_parser".toList)]),
    ("timestamp".toList, .num 1583922030)]

theorem sendable_hplJob : Sendable hplJob where
  one_line := by decide
  tags hsnap := absurd hsnap (by decide)

theorem sendable_passedSnap : Sendable passedSnap where
  one_line := by decide
  tags _ := by decide

theorem relays_snapChild :
    Relays flagJob "gr0959".toList (passedSnap.job_info_msg 1583922030) snapChild := by
  have hpoint := readPoint_job_info_msg sendable_passedSnap (by decide) 1583922030
  refine ⟨fun point hread => ?_, fun point hread => ?_, fun point hread => ?_, ⟨_, rfl⟩⟩
  · obtain rfl := Option.some.inj (hpoint.symm.trans hread)
    rfl
  · obtain rfl := Option.some.inj (hpoint.symm.trans hread)
    refine ⟨_, rfl, rfl, rfl, ?_⟩
    have hsnap : passedSnap.isSnap = true := by decide
    change ∀ tag ∈ passedSnap.tags, _
    rw [Job.tags, if_pos hsnap]
    simp only [List.cons_append, List.nil_append, List.forall_mem_cons]
    exact ⟨rfl, rfl, rfl, rfl, rfl, rfl, rfl, rfl, rfl, rfl, rfl, rfl, rfl, rfl,
      List.forall_mem_nil _⟩
  · obtain rfl := Option.some.inj (hpoint.symm.trans hread)
    exact ⟨_, rfl, rfl⟩

end Files

end DaapLog.AcceptanceResults

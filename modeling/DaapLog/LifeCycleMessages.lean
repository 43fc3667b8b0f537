import DaapLog.ChunkBoundaries
import DaapLog.LibraryCalls
import DaapLog.PatternMatches

/-!
The life-cycle messages of the library on their way through the plugin: each of them
becomes one record, whatever else the child has in its tags.
-/

namespace DaapLog.LifeCycleMessages

open DaapLog.CStrings
open DaapLog.OrderedHash
open DaapLog.LinearPatterns
open DaapLog.PatternMatches
open DaapLog.RubyValues
open DaapLog.PluginActions
open DaapLog.PluginChildren
open DaapLog.PluginProcess
open DaapLog.ChildRecords
open DaapLog.ChunkBoundaries
open DaapLog.BuildInflux (fullMessage fullMessage_eq_take DAAP_MAX_MSG_LEN)
open DaapLog.LibraryCalls (Library LogIo toInt32 heartbeatText jobstartText jobendText
  transmit_events syslogInit promptIo)

/-- The surroundings of a call in which `vfprintf` prints a text. -/
def printing (text : Text) (io : LogIo) : LogIo := { io with msg_len := text.length }

/-- A call puts the message into the line that it builds. -/
def Sends (l : Library) (c : LibraryCalls.Call) (message : Text) : Prop :=
  ∃ origin init_data tstamp, .influx origin init_data tstamp message ∈ (c.perform l).2.1

/-- A `jobinfo` tag with a job id, a job name and a user. -/
def CarriesJob (jobinfo : Text) : Prop := (firstMatch userPattern jobinfo).isSome

/-- What telegraf makes of a message of the library. -/
structure Delivers (jobinfo message : Text) (child : Record) : Prop where
  name : fetch child "name".toList = .str "daap".toList
  tags : ∃ tags host, fetch child "tags".toList = .hash tags ∧
    fetch tags "host".toList = .str host ∧ fetch tags "jobinfo".toList = .str jobinfo
  fields : ∃ fields, fetch child "fields".toList = .hash fields ∧
    get fields "message".toList = some (.str message)

/-- An event whose only child brings a message. -/
def Brings (rb : Runtime) (jobinfo message : Text) (child : Record) (e : Event) : Prop :=
  Delivers jobinfo message child ∧ ∃ record, parsedRecord rb e.2 = some record ∧
    elements (fetch record "metrics".toList) = some [.hash child]

/-- The child has a time, as any metric of telegraf. -/
def HasTime (child : Record) : Prop := ∃ x, fetch child "timestamp".toList = .num x

/-- The metric of a job, which is marked for flag tests. -/
def metricText (jobinfo what : Text) : Text :=
  (if isFlag jobinfo then "flag_daap_".toList else []) ++ what

/-- The event becomes one record, which has the metric and the value. -/
def Becomes (rb : Runtime) (e : Event) (metric key : Text) (value : Val) : Prop :=
  ∃ ts record, (∀ cur_ts jobs, (process rb cur_ts jobs [e]).2 = some [(ts, record)]) ∧
    get record "metric".toList = some (.str metric) ∧ get record key = some value

/-- The plugin understands the life-cycle messages of the library. -/
structure Agree (rb : Runtime) (l : Library) (jobinfo : Text) : Prop where
  heartbeat : ∀ io message child e,
    Sends l (.daapLogHeartbeat (printing heartbeatText io)) message →
      Brings rb jobinfo message child e →
        Becomes rb e (metricText jobinfo "heartbeat".toList) "val".toList (.num 1)
  jobStart : ∀ io message child e,
    Sends l (.daapLogJobStart (printing jobstartText io)) message →
      Brings rb jobinfo message child e → HasTime child →
        Becomes rb e (metricText jobinfo "job_state".toList) "state".toList (.str "start".toList)
  jobEnd : ∀ io message child e,
    Sends l (.daapLogJobEnd (printing jobendText io)) message →
      Brings rb jobinfo message child e → HasTime child →
        Becomes rb e (metricText jobinfo "job_state".toList) "state".toList (.str "end".toList)
  jobDuration : ∀ io message child e (cur_time : Nat), l.start_time ≤ cur_time →
    cur_time - l.start_time < 2 ^ 31 →
    Sends l (.daapLogJobDuration cur_time (printing (l.jobdurationText cur_time) io)) message →
      Brings rb jobinfo message child e → HasTime child →
        Becomes rb e (metricText jobinfo "job_duration".toList) "duration".toList
          (.num (cur_time - l.start_time : Nat))

section Library

variable {l : Library} {message : Text}

theorem message_of_sends_log {formatted : Text} {io : LogIo} {c : LibraryCalls.Call}
    (hshort : formatted.length ≤ DAAP_MAX_MSG_LEN)
    (hc : c.perform l = LibraryCalls.Call.perform.log l formatted (printing formatted io))
    (h : Sends l c message) : message = formatted := by
  obtain ⟨origin, init_data, tstamp, h⟩ := h
  rw [hc, LibraryCalls.Call.perform.log, Library.daapLogWrite] at h
  split at h
  · exact absurd h List.not_mem_nil
  · split at h
    · exact absurd h List.not_mem_nil
    · rcases List.mem_cons.mp h with h | h
      · rw [← List.take_of_length_le hshort, ← fullMessage_eq_take io.old formatted]
        injection h
      · rcases transmit_events l h with ⟨e, he⟩ | he
        · cases he
        · cases he

theorem sends_log {formatted : Text} {io : LogIo} {c : LibraryCalls.Call}
    {init_data : BuildInflux.daap_init_t} (hcalled : l.daapInit_called = true)
    (hinit : l.init_data = some init_data) (hshort : formatted.length ≤ DAAP_MAX_MSG_LEN)
    (hc : c.perform l = LibraryCalls.Call.perform.log l formatted (printing formatted io)) :
    Sends l c formatted := by
  refine ⟨.caller, init_data, io.tstamp, ?_⟩
  have hmessage : fullMessage (printing formatted io).msg_len (printing formatted io).old formatted =
      formatted := by
    rw [printing, fullMessage_eq_take, List.take_of_length_le hshort]
  rw [hc, LibraryCalls.Call.perform.log, Library.daapLogWrite, hcalled, if_neg (by decide), hinit]
  simp only [hmessage]
  exact List.mem_cons_self

theorem toInt32_eq_self {x : Int} (hlow : 0 ≤ x) (hhigh : x < 2 ^ 31) : toInt32 x = x := by
  rw [toInt32]
  exact Int.bmod_eq_of_le (by omega) (by omega)

theorem jobdurationText_eq {cur_time : Nat} (hstart : l.start_time ≤ cur_time)
    (hbound : cur_time - l.start_time < 2 ^ 31) :
    l.jobdurationText cur_time =
      "__daap_jobduration: ".toList ++ decimal (cur_time - l.start_time : Nat) := by
  have hint : toInt32 (cur_time - l.start_time) = (cur_time - l.start_time : Nat) := by
    rw [← Nat.cast_sub hstart]
    exact toInt32_eq_self (by omega) (by omega)
  rw [← hint]
  rfl

theorem jobdurationText_short {n : Nat} (h : n < 2 ^ 31) :
    ("__daap_jobduration: ".toList ++ decimal n).length ≤ DAAP_MAX_MSG_LEN := by
  have hdigits : (Nat.toDigits 10 n).length ≤ 10 := by
    rw [Nat.length_toDigits_le_iff (by norm_num) (by norm_num)]
    omega
  rw [List.length_append]
  exact (Nat.add_le_add_left hdigits _).trans (by decide)

end Library

section Jobs

variable {jobinfo : Text}

theorem carriesJob_of_words {front jobid gap job_name gap' user back : Text}
    (hjobid : jobid ≠ [] ∧ ∀ c ∈ jobid, notSpace c) (hgap : ∀ c ∈ gap, inLine c)
    (hname : job_name ≠ [] ∧ ∀ c ∈ job_name, notSpace c) (hgap' : ∀ c ∈ gap', inLine c)
    (huser : user ≠ [] ∧ ∀ c ∈ user, notSpace c) :
    CarriesJob (front ++ ("jobid=".toList ++ (jobid ++ (gap ++ ("name=".toList ++ (job_name ++
      (gap' ++ ("user=".toList ++ (user ++ back))))))))) := by
  rw [CarriesJob, firstMatch_isSome_iff]
  refine ⟨front, _, rfl, ?_⟩
  simp only [userPattern, List.append_assoc]
  refine starts_litFold 0 ((starts_plus_iff _ _).mpr ⟨jobid, _, rfl, hjobid.1, hjobid.2, ?_⟩)
  refine (starts_star_iff _ _).mpr ⟨gap, _, rfl, hgap, starts_litFold 0 ?_⟩
  refine (starts_plus_iff _ _).mpr ⟨job_name, _, rfl, hname.1, hname.2, ?_⟩
  refine (starts_star_iff _ _).mpr ⟨gap', _, rfl, hgap', starts_litFold 0 ?_⟩
  rw [← List.append_nil (plus notSpace 3)]
  exact (starts_plus_iff _ _).mpr ⟨user, back, rfl, huser.1, huser.2, trivial⟩

theorem mem_captures {pattern : Pattern} {keys : List Text} {text : Text}
    {found : Hash Text Text} (h : captures pattern keys text = some found) {key : Text}
    (hkey : key ∈ keys) : ∃ e ∈ found, key = e.1 := by
  obtain ⟨parts, -, rfl⟩ := Option.map_eq_some_iff.mp h
  obtain ⟨i, hi, rfl⟩ := List.mem_iff_getElem.mp hkey
  refine ⟨_, List.mem_map.mpr ⟨(keys[i], i), ?_, rfl⟩, rfl⟩
  exact List.mem_zipIdx_iff_getElem?.mpr (List.getElem?_eq_getElem hi)

theorem hasKey_jobInfo (h : CarriesJob jobinfo) {key : Text}
    (hkey : key ∈ ["jobid", "job_name", "user"].map String.toList) :
    hasKey (jobInfo jobinfo) key := by
  obtain ⟨parts, hparts⟩ := Option.isSome_iff_exists.mp h
  obtain ⟨found, hfound⟩ : ∃ found, captures userPattern
      (["jobid", "job_name", "user"].map String.toList) jobinfo = some found := by
    rw [captures, hparts]
    exact ⟨_, rfl⟩
  refine hasKey_foldl_set Prod.fst (fun _ e => e.2) (.inl ?_)
  refine hasKey_foldl_set Prod.fst (fun _ e => e.2) (.inl ?_)
  simp only [hfound, Option.getD_some]
  exact hasKey_foldl_set Prod.fst (fun _ e => e.2) (.inr (mem_captures hfound hkey))

theorem jobOf_isSome (h : CarriesJob jobinfo) : (jobOf jobinfo).isSome := by
  have hjobid : hasKey (jobInfo jobinfo) "jobid".toList := hasKey_jobInfo h (by decide)
  have hname : hasKey (jobInfo jobinfo) "job_name".toList := hasKey_jobInfo h (by decide)
  obtain ⟨jobid, hjobid⟩ := Option.isSome_iff_exists.mp hjobid
  obtain ⟨job_name, hname⟩ := Option.isSome_iff_exists.mp hname
  rw [jobOf, hjobid, hname]
  rfl

end Jobs

section Records

variable {c : Child} {message : Text}

/-- A child of the library whose message is about neither a mesh nor zones. -/
structure Plain (c : Child) (message : Text) : Prop where
  name : c.name = "daap".toList
  text : c.message = some message
  noMesh : strstr message "mesh".toList = false
  noZones : strstr message "zones:".toList = false

theorem Plain.isMesh (h : Plain c message) : c.isMesh = false := by
  rw [Child.isMesh, Child.mentions, h.text, Option.any_some, h.noMesh, Bool.false_and]

theorem Plain.isZones (h : Plain c message) : c.isZones = false := by
  rw [Child.isZones, Child.mentions, h.text, Option.any_some, h.noZones, Bool.false_and]

theorem Plain.finalName (h : Plain c message) : c.finalName = "daap".toList := by
  rw [Child.finalName, Child.mesh, h.isMesh]
  exact h.name

theorem Plain.get_newRec (h : Plain c message) {key : Text}
    (hkey : key ∉ ["host".toList, "timestamp".toList, "mpirank".toList] ++ jobKeys) :
    get c.newRec key = get (c.jobDuration (c.jobState (c.heartbeat []))) key := by
  rw [List.mem_append, not_or] at hkey
  simp only [List.mem_cons, List.not_mem_nil, or_false, not_or] at hkey
  obtain ⟨⟨hhost, htimestamp, hmpirank⟩, hjob⟩ := hkey
  rw [Child.newRec, Child.preTeam, if_neg (by rw [h.finalName]; decide),
    if_neg (by rw [h.finalName]; decide), Child.zones, h.isZones, if_neg Bool.false_ne_true,
    get_mpirank c hmpirank, get_addJobInfo c hjob, Child.common, get_set_of_ne htimestamp,
    get_set_of_ne hhost, Child.meshInfo, h.isMesh, if_neg Bool.false_ne_true]

theorem Plain.actions (h : Plain c message) (hjob : CarriesJob c.jobinfo) (rb : Runtime)
    (time : Int) : c.actions rb time = [.push c.newRec] := by
  obtain ⟨job, hsome⟩ := Option.isSome_iff_exists.mp (jobOf_isSome hjob)
  rw [Child.actions, hsome]
  simp only [h.finalName]
  rw [if_neg (by decide), if_neg (by decide), if_neg (by decide), if_neg (by decide),
    if_neg (by decide)]

theorem isMessage_iff (h : c.message = some message) (text : Text) :
    c.isMessage text ↔ message = text := by
  rw [Child.isMessage, h]
  simp

theorem jobDuration_of_other (h : c.message = some message)
    (hother : strstr message "__daap_jobduration:".toList = false) (new_rec : Record) :
    c.jobDuration new_rec = new_rec := by
  rw [Child.jobDuration, Child.mentions, h, Option.any_some, hother, if_neg Bool.false_ne_true]

theorem heartbeat_record (h : c.message = some heartbeatText) {r : Record}
    (hr : c.jobDuration (c.jobState (c.heartbeat [])) = r) :
    get r "metric".toList = some (c.metric "heartbeat".toList) ∧
      get r "val".toList = some (.num 1) := by
  rw [jobDuration_of_other h (by decide), Child.jobState,
    if_neg (by rw [isMessage_iff h]; decide), if_neg (by rw [isMessage_iff h]; decide),
    Child.heartbeat, if_pos ((isMessage_iff h "__daap_heartbeat".toList).mpr rfl)] at hr
  rw [← hr]
  constructor
  · simp (disch := decide) only [get_set_of_ne, get_setMetric_metric]
  · exact get_set_self _ _ _

theorem jobStart_record (h : c.message = some jobstartText) {r : Record}
    (hr : c.jobDuration (c.jobState (c.heartbeat [])) = r) :
    get r "metric".toList = some (c.metric "job_state".toList) ∧
      get r "state".toList = some (.str "start".toList) := by
  rw [jobDuration_of_other h (by decide), Child.jobState,
    if_neg (by rw [isMessage_iff h]; decide),
    if_pos ((isMessage_iff h "__daap_jobstart".toList).mpr rfl)] at hr
  rw [← hr]
  constructor
  · simp (disch := decide) only [get_set_of_ne, get_setMetric_metric]
  · exact get_set_self _ _ _

theorem jobEnd_record (h : c.message = some jobendText) {r : Record}
    (hr : c.jobDuration (c.jobState (c.heartbeat [])) = r) :
    get r "metric".toList = some (c.metric "job_state".toList) ∧
      get r "state".toList = some (.str "end".toList) := by
  rw [jobDuration_of_other h (by decide), Child.jobState,
    if_pos ((isMessage_iff h "__daap_jobend".toList).mpr rfl)] at hr
  rw [← hr]
  constructor
  · simp (disch := decide) only [get_set_of_ne, get_setMetric_metric]
  · exact get_set_self _ _ _

theorem captures_duration (n : Nat) :
    captures durationPattern ["duration".toList] ("__daap_jobduration: ".toList ++ decimal n) =
      some [("duration".toList, decimal n)] := by
  obtain ⟨d, digits, hdigits⟩ := List.exists_cons_of_ne_nil (decimal_ne_nil n)
  have hspace : ∀ c ∈ decimal n, notSpace c := by
    intro c hc
    rcases mem_decimal hc with h | rfl
    · rw [notSpace, bne_iff_ne]
      rintro rfl
      exact absurd h (by decide)
    · rfl
  rw [hdigits, List.forall_mem_cons] at hspace
  have hmatch : matchHere durationPattern none ("__daap_jobduration: ".toList ++ d :: digits) =
      some ("__daap_jobduration: ".toList.map (fun c => [c]) ++ [[d], digits], []) := by
    rw [durationPattern, matchHere_lit, matchHere_plus_all 1 _ hspace.1 hspace.2]
    rfl
  rw [captures, firstMatch, hdigits, search_of_matchHere hmatch]
  simp only [Option.map_some, Option.some.injEq]
  rw [durationPattern]
  simp only [List.zipIdx_cons, List.zipIdx_nil, List.map_cons, List.map_nil]
  rw [capture_append (by rfl), capture_lit _ (by decide)]
  simp [capture, plus, cls, LinearPatterns.star]

theorem not_mem_duration {n : Nat} {c : Char} (htext : c ∉ "__daap_jobduration: ".toList)
    (hdigit : c.isDigit = false) (hdash : c ≠ '-') :
    c ∉ "__daap_jobduration: ".toList ++ decimal n := by
  intro h
  rcases List.mem_append.mp h with h | h
  · exact htext h
  · rcases mem_decimal h with h | h
    · rw [hdigit] at h
      exact absurd h Bool.false_ne_true
    · exact hdash h

theorem jobDuration_record {n : Nat}
    (h : c.message = some ("__daap_jobduration: ".toList ++ decimal n)) {r : Record}
    (hr : c.jobDuration (c.jobState (c.heartbeat [])) = r) :
    get r "metric".toList = some (c.metric "job_duration".toList) ∧
      get r "duration".toList = some (.num n) := by
  have hmentions : c.mentions "__daap_jobduration:".toList = true := by
    rw [Child.mentions, h, Option.any_some, strstr, decide_eq_true_iff]
    exact ⟨[], " ".toList ++ decimal n, rfl⟩
  have hmetric := jobDuration_metric c (c.jobState (c.heartbeat []))
  rw [hr, if_pos hmentions] at hmetric
  refine ⟨hmetric, ?_⟩
  rw [Child.jobDuration, if_pos hmentions, h, Option.bind_some, captures_duration] at hr
  rw [← hr]
  simp only [List.foldl_cons, List.foldl_nil, get_set_self, RubyStrings.to_i_decimal,
    Int.cast_natCast]

end Records

section Emission

variable {rb : Runtime} {jobinfo message : Text} {child : Record} {e : Event}

/-- The time of an emitted record may be a text, the rest of it is that of the record. -/
theorem stampRecord_keeps (rb : Runtime) {m : Record}
    (h : isTimed m → ∃ x, fetch m "timestamp".toList = .num x) :
    ∃ record, stampRecord rb m = some (fetch m "timestamp".toList, record) ∧
      ∀ key, key ≠ "timestamp".toList → get record key = get m key := by
  rw [stampRecord]
  split
  · next htimed =>
      obtain ⟨x, hx⟩ := h htimed
      rw [hx]
      exact ⟨_, rfl, fun key hkey => get_set_of_ne hkey _ _⟩
  · exact ⟨m, rfl, fun _ _ => rfl⟩

theorem readChild_of_delivers (h : Delivers jobinfo message child) :
    ∃ c, readChild child "daap".toList = some c ∧ c.name = "daap".toList ∧
      c.jobinfo = jobinfo ∧ c.message = some message ∧
      c.timestamp = fetch child "timestamp".toList := by
  obtain ⟨tags, host, htags, hhost, hjobinfo⟩ := h.tags
  obtain ⟨fields, hfields, hmessage⟩ := h.fields
  have hread : readMessage jobinfo fields = some (some message) := by
    rw [readMessage, hmessage]
  refine ⟨⟨"daap".toList, tags, fields, jobinfo, host, fetch child "timestamp".toList,
    some message⟩, ?_, rfl, rfl, rfl, rfl⟩
  rw [readChild, htags, hfields]
  simp only [Val.asHash, Option.bind_eq_bind, Option.bind_some, hjobinfo, hhost, Val.asText, hread]
  rfl

theorem childActions_of_delivers (h : Delivers jobinfo message child) (time : Int) :
    childActions rb time (.hash child) = namedActions rb time child "daap".toList := by
  obtain ⟨fields, hfields, -⟩ := h.fields
  have hkey : hasKey child "fields".toList := hasKey_of_fetch_ne (by rw [hfields]; exact nofun)
  have hname : hasKey child "name".toList := hasKey_of_fetch_ne (by rw [h.name]; exact nofun)
  rw [childActions, hkey, hname, h.name]
  rfl

def Untimed (what : Text) : Prop :=
  isTimedText what = false ∧ isTimedText ("flag_daap_".toList ++ what) = false

theorem becomes_of_record (hjob : CarriesJob jobinfo)
    (hbrings : Brings rb jobinfo message child e) (hmesh : strstr message "mesh".toList = false)
    (hzones : strstr message "zones:".toList = false) {what key : Text} {value : Val}
    (htime : Untimed what ∨ HasTime child)
    (hkey : key ∉ ["host".toList, "timestamp".toList, "mpirank".toList] ++ jobKeys)
    (hrecord : ∀ (c : Child) (r : Record), c.message = some message →
      c.jobDuration (c.jobState (c.heartbeat [])) = r →
        get r "metric".toList = some (c.metric what) ∧ get r key = some value) :
    Becomes rb e (metricText jobinfo what) key value := by
  obtain ⟨hdelivers, record, hparsed, hchildren⟩ := hbrings
  obtain ⟨c, hread, hname, rfl, hmessage, hts⟩ := readChild_of_delivers hdelivers
  have hplain : Plain c message := ⟨hname, hmessage, hmesh, hzones⟩
  have hactions : eventActions rb e = [.push c.newRec] := by
    rw [eventActions_children rb hparsed hchildren, List.flatMap_singleton,
      childActions_of_delivers hdelivers, namedActions, hread]
    exact hplain.actions hjob rb e.1
  obtain ⟨hmetric, hvalue⟩ := hrecord c _ hmessage rfl
  rw [← hplain.get_newRec (by decide)] at hmetric
  have hnumeric : isTimed c.newRec → ∃ x, fetch c.newRec "timestamp".toList = .num x := by
    intro htimed
    rw [fetch, newRec_timestamp, Option.getD_some, hts]
    rcases htime with ⟨hwhat, hflag⟩ | htime
    · rw [isTimed_of_metric c what false hmetric hwhat hflag] at htimed
      exact absurd htimed Bool.false_ne_true
    · exact htime
  obtain ⟨emitted, hemitted, hkeys⟩ := stampRecord_keeps rb hnumeric
  refine ⟨fetch c.newRec "timestamp".toList, emitted, ?_, ?_, ?_⟩
  · intro cur_ts jobs
    rw [process_emits, List.flatMap_singleton, hactions]
    simp [emit, hemitted]
  · rw [hkeys _ (by decide), hmetric]
    rfl
  · rw [hkeys key (fun h => hkey (by simp [h])), hplain.get_newRec hkey, hvalue]

theorem strstr_of_not_mem {text needle : Text} {c : Char} (hc : c ∈ needle) (h : c ∉ text) :
    strstr text needle = false := by
  rw [strstr, decide_eq_false_iff_not]
  intro hpart
  exact h (hpart.subset hc)

end Emission

/-- The library and the plugin agree on the life-cycle messages, for each `jobinfo` tag
with a job. -/
theorem lifeCycle_messages_agree {rb : Runtime} {l : Library} {jobinfo : Text}
    (hjob : CarriesJob jobinfo) : Agree rb l jobinfo where
  heartbeat io message child e hsends hbrings := by
    obtain rfl : message = heartbeatText := message_of_sends_log (by decide) rfl hsends
    exact becomes_of_record hjob hbrings (by decide) (by decide)
      (.inl ⟨by decide, by decide⟩) (by decide) fun c r h hr => heartbeat_record h hr
  jobStart io message child e hsends hbrings htime := by
    obtain rfl : message = jobstartText := message_of_sends_log (by decide) rfl hsends
    exact becomes_of_record hjob hbrings (by decide) (by decide) (.inr htime) (by decide)
      fun c r h hr => jobStart_record h hr
  jobEnd io message child e hsends hbrings htime := by
    obtain rfl : message = jobendText := message_of_sends_log (by decide) rfl hsends
    exact becomes_of_record hjob hbrings (by decide) (by decide) (.inr htime) (by decide)
      fun c r h hr => jobEnd_record h hr
  jobDuration io message child e cur_time hstart hbound hsends hbrings htime := by
    have htext := jobdurationText_eq hstart hbound
    have hshort := jobdurationText_short hbound
    rw [← htext] at hshort
    have hmessage := message_of_sends_log hshort rfl hsends
    rw [htext] at hmessage
    subst hmessage
    refine becomes_of_record hjob hbrings ?_ ?_ (.inr htime) (by decide)
      fun c r h hr => jobDuration_record h hr
    · exact strstr_of_not_mem (c := 'm') (by decide)
        (not_mem_duration (by decide) (by decide) (by decide))
    · exact strstr_of_not_mem (c := 'z') (by decide)
        (not_mem_duration (by decide) (by decide) (by decide))

def flagChild (message : Text) : Record :=
  [("name".toList, .str "daap".toList),
    ("tags".toList, .hash [("host".toList, .str "n".toList),
      ("jobinfo".toList, .str "jobid=7 name=flag_perf_tests_a user=u".toList),
      ("mpirank".toList, .str "0".toList)]),
    ("fields".toList, .hash [("message".toList, .str message)]),
    ("timestamp".toList, .num 1635185075)]

theorem lifeCycle_messages_agree_flagChild :
    Becomes integerRuntime (0, [("metrics".toList,
        .arr [.hash (flagChild "__daap_jobduration: 7".toList)])])
      "flag_daap_job_duration".toList "duration".toList (.num 7) := by
  have hjob : CarriesJob "jobid=7 name=flag_perf_tests_a user=u".toList :=
    @carriesJob_of_words [] ['7'] [' '] "flag_perf_tests_a".toList [' '] ['u'] []
      (by simp [notSpace]) (by simp [inLine]) (by simp [notSpace]) (by simp [inLine])
      (by simp [notSpace])
  have hagree : Agree integerRuntime
      { daapInit_called := true, appname := .live "flag".toList, hostname := .live "n".toList,
        cluster_name := .live "c".toList, start_time := 1635185068 }
      "jobid=7 name=flag_perf_tests_a user=u".toList := lifeCycle_messages_agree hjob
  refine hagree.jobDuration promptIo _ _ _ 1635185075 (by decide) (by decide)
    (sends_log rfl rfl (by decide) rfl) ⟨?_, _, rfl, rfl⟩ ⟨_, rfl⟩
  exact ⟨rfl, ⟨_, "n".toList, rfl, rfl, rfl⟩, ⟨_, rfl, rfl⟩⟩

end DaapLog.LifeCycleMessages

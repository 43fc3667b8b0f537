import DaapLog.LifeCycleMessages
import DaapLog.ProcessLines

/-!
The messages of a job from the calls of its processes to the records of the plugin: what
the library writes, telegraf reads and puts into children, and the plugin emits.
-/

namespace DaapLog.JobRecords

open DaapLog.BuildInflux
open DaapLog.CStrings
open DaapLog.JobMarkers
open DaapLog.LibraryCalls
open DaapLog.ProcessLines
open DaapLog.Runs

section Children

open DaapLog.ChildRecords
open DaapLog.ChunkBoundaries
open DaapLog.InfluxRoundTrip
open DaapLog.LifeCycleMessages
open DaapLog.LinearPatterns
open DaapLog.LineProtocol
open DaapLog.OrderedHash
open DaapLog.PluginActions
open DaapLog.PluginChildren
open DaapLog.PluginProcess
open DaapLog.RubyValues

/-- What telegraf on a node makes of a line: the point that it reads, with its own tags for
the node and the job and a time. -/
structure Relays (jobinfo node line : Text) (child : Record) : Prop where
  name : ∀ point, readPoint line = some point →
    fetch child "name".toList = .str point.measurement
  tags : ∀ point, readPoint line = some point → ∃ tags, fetch child "tags".toList = .hash tags ∧
    get tags "host".toList = some (.str node) ∧
    get tags "jobinfo".toList = some (.str jobinfo) ∧
    ∀ tag ∈ point.tags, get tags tag.1 = some (.str tag.2)
  fields : ∀ point, readPoint line = some point →
    ∃ fields, fetch child "fields".toList = .hash fields ∧
      get fields point.field.1 = some (.str point.field.2)
  time : HasTime child

/-- The message is not searched for a mesh or zones, or has none. -/
def Quiet (jobinfo message : Text) : Prop :=
  isFlag jobinfo = false ∨
    strstr message "mesh".toList = false ∧ strstr message "zones:".toList = false

instance (jobinfo message : Text) : Decidable (Quiet jobinfo message) :=
  inferInstanceAs (Decidable (_ ∨ _ ∧ _))

/-- The keys that say where a record comes from. -/
def originKeys : List Text := ["host".toList, "timestamp".toList, "mpirank".toList] ++ jobKeys

/-- What the record of a message says; nothing if it is not one of the library. -/
structure Told (jobinfo message : Text) (record : Record) : Prop where
  heartbeat : message = heartbeatText →
    get record "metric".toList = some (.str (metricText jobinfo "heartbeat".toList)) ∧
      get record "val".toList = some (.num 1)
  start : message = jobstartText →
    get record "metric".toList = some (.str (metricText jobinfo "job_state".toList)) ∧
      get record "state".toList = some (.str "start".toList)
  finish : message = jobendText →
    get record "metric".toList = some (.str (metricText jobinfo "job_state".toList)) ∧
      get record "state".toList = some (.str "end".toList)
  duration : ∀ n : Nat, message = "__daap_jobduration: ".toList ++ decimal n →
    get record "metric".toList = some (.str (metricText jobinfo "job_duration".toList)) ∧
      get record "duration".toList = some (.num n)
  other : message ∉ [heartbeatText, jobstartText, jobendText] →
    strstr message "__daap_jobduration:".toList = false →
      ∀ key, key ∉ originKeys → get record key = none

/-- The record of a message, with where it comes from. -/
structure Reports (jobinfo node : Text) (mpi_rank : Int) (message : Text) (record : Record) :
    Prop where
  told : Told jobinfo message record
  host : get record "host".toList = some (.str (clean_host node))
  mpirank : get record "mpirank".toList = some (.str (decimal mpi_rank))
  job : ∀ key value, get (jobInfo jobinfo) key = some value → get record key = some (.str value)

section Records

variable {c : Child} {message : Text}

/-- A child with a message that is not taken apart for a mesh or zones. The tags of the
`pre_team` children would replace what all records have. -/
structure Bears (c : Child) (message : Text) : Prop where
  name : c.name ∉ ["pre_team_pavilion_parser".toList, "pre_team_pavilion_hpl_parser".toList]
  text : c.message = some message
  quiet : Quiet c.jobinfo message

theorem Bears.isMesh (h : Bears c message) : c.isMesh = false := by
  rw [Child.isMesh, Child.mentions, h.text, Option.any_some]
  rcases h.quiet with hflag | ⟨hmesh, -⟩
  · rw [hflag, Bool.and_false]
  · rw [hmesh, Bool.false_and]

theorem Bears.isZones (h : Bears c message) : c.isZones = false := by
  rw [Child.isZones, Child.mentions, h.text, Option.any_some]
  rcases h.quiet with hflag | ⟨-, hzones⟩
  · rw [hflag, Bool.and_false]
  · rw [hzones, Bool.false_and]

theorem Bears.finalName (h : Bears c message) : c.finalName = c.name := by
  rw [Child.finalName, Child.mesh, h.isMesh]
  rfl

theorem Bears.newRec (h : Bears c message) :
    c.newRec = c.mpirank (addTexts (jobInfo c.jobinfo)
      (c.common (c.jobDuration (c.jobState (c.heartbeat []))))) := by
  have hname := h.name
  rw [List.mem_cons, List.mem_singleton, not_or] at hname
  rw [Child.newRec, Child.preTeam, h.finalName, if_neg hname.1, if_neg hname.2, Child.zones,
    h.isZones, if_neg Bool.false_ne_true,
    Child.meshInfo, h.isMesh, if_neg Bool.false_ne_true]

theorem Bears.get_newRec (h : Bears c message) {key : Text}
    (hkey : key ∉ originKeys) :
    get c.newRec key = get (c.jobDuration (c.jobState (c.heartbeat []))) key := by
  rw [originKeys, List.mem_append, not_or] at hkey
  simp only [List.mem_cons, List.not_mem_nil, or_false, not_or] at hkey
  obtain ⟨⟨hhost, htimestamp, hmpirank⟩, hjob⟩ := hkey
  rw [h.newRec, get_mpirank c hmpirank, get_addJobInfo c hjob, Child.common,
    get_set_of_ne htimestamp, get_set_of_ne hhost]

theorem Bears.actions (h : Bears c message) (hname : c.name = "daap".toList)
    (hjob : CarriesJob c.jobinfo) (rb : Runtime) (time : Int) :
    c.actions rb time = [.push c.newRec] := by
  obtain ⟨job, hsome⟩ := Option.isSome_iff_exists.mp (jobOf_isSome hjob)
  rw [Child.actions, hsome]
  simp only [h.finalName, hname]
  rw [if_neg (by decide), if_neg (by decide), if_neg (by decide), if_neg (by decide),
    if_neg (by decide)]

theorem nodup_jobInfo (jobinfo : Text) : ((jobInfo jobinfo).map Prod.fst).Nodup := by
  have hstep (info : Hash Text Text) (hinfo : (info.map Prod.fst).Nodup) (found : Hash Text Text) :
      ((found.foldl (fun info e => set info e.1 e.2) info).map Prod.fst).Nodup :=
    nodup_keys_foldl_set Prod.fst Prod.snd found hinfo
  exact hstep _ (hstep _ (hstep [] List.nodup_nil _) _) _

theorem Bears.host (h : Bears c message) :
    get c.newRec "host".toList = some (.str (clean_host c.host)) := by
  rw [h.newRec, get_mpirank c (by decide), get_addJobInfo c (by decide), Child.common,
    get_set_of_ne (by decide), get_set_self]

theorem Bears.get_mpirank_tag (h : Bears c message) {value : Val}
    (hvalue : get c.tags "mpirank".toList = some value) :
    get c.newRec "mpirank".toList = some value := by
  have hkey : hasKey c.tags "mpirank".toList = true := by rw [hasKey, hvalue]; rfl
  rw [h.newRec, Child.mpirank, if_pos hkey, get_set_self, fetch, hvalue]
  rfl

theorem Bears.job (h : Bears c message) {key value : Text}
    (hvalue : get (jobInfo c.jobinfo) key = some value) :
    get c.newRec key = some (.str value) := by
  have hmem : key ∈ jobKeys := jobInfo_keys c.jobinfo _ (mem_of_get hvalue)
  have hkey : key ≠ "mpirank".toList := by
    rintro rfl
    exact absurd hmem (by decide)
  rw [h.newRec, get_mpirank c hkey, addTexts, get_foldl_entries (nodup_jobInfo c.jobinfo), hvalue]
  rfl

theorem Bears.told (h : Bears c message) : Told c.jobinfo message c.newRec where
  heartbeat hmessage := by
    rw [h.get_newRec (by decide), h.get_newRec (by decide)]
    exact heartbeat_record (h.text.trans (congrArg some hmessage)) rfl
  start hmessage := by
    rw [h.get_newRec (by decide), h.get_newRec (by decide)]
    exact jobStart_record (h.text.trans (congrArg some hmessage)) rfl
  finish hmessage := by
    rw [h.get_newRec (by decide), h.get_newRec (by decide)]
    exact jobEnd_record (h.text.trans (congrArg some hmessage)) rfl
  duration n hmessage := by
    rw [h.get_newRec (by decide), h.get_newRec (by decide)]
    exact jobDuration_record (h.text.trans (congrArg some hmessage)) rfl
  other hmessage hduration key hkey := by
    have hnot (text : Text) (htext : text ∈ [heartbeatText, jobstartText, jobendText]) :
        ¬c.isMessage text = true := by
      rw [isMessage_iff h.text]
      rintro rfl
      exact hmessage htext
    have hend : ¬c.isMessage "__daap_jobend".toList = true := hnot jobendText (by simp)
    have hstart : ¬c.isMessage "__daap_jobstart".toList = true := hnot jobstartText (by simp)
    have hbeat : ¬c.isMessage "__daap_heartbeat".toList = true := hnot heartbeatText (by simp)
    rw [h.get_newRec hkey, jobDuration_of_other h.text hduration, Child.jobState, if_neg hend,
      if_neg hstart, Child.heartbeat, if_neg hbeat]
    rfl

end Records

theorem Told.congr {jobinfo message : Text} {m record : Record} (h : Told jobinfo message m)
    (hkeys : ∀ key, key ≠ "timestamp".toList → get record key = get m key) :
    Told jobinfo message record := by
  have hmetric := hkeys "metric".toList (by decide)
  have hval := hkeys "val".toList (by decide)
  have hstate := hkeys "state".toList (by decide)
  have hduration := hkeys "duration".toList (by decide)
  constructor
  · rw [hmetric, hval]
    exact h.heartbeat
  · rw [hmetric, hstate]
    exact h.start
  · rw [hmetric, hstate]
    exact h.finish
  · rw [hmetric, hduration]
    exact h.duration
  · intro hmessage hnone key hkey
    have htimestamp : key ≠ "timestamp".toList := by
      rintro rfl
      exact hkey (by decide)
    rw [hkeys key htimestamp]
    exact h.other hmessage hnone key hkey

section Emission

variable {rb : Runtime} {jobinfo node line : Text} {point : Point} {init_data : daap_init_t}
  {entry : Entry} {child : Record} {c : Child}

/-- A child with the parts of a point that has a message. -/
structure Conveys (jobinfo node : Text) (point : Point) (c : Child) : Prop where
  name : c.name = point.measurement
  message : c.message = some point.field.2
  jobinfo : c.jobinfo = jobinfo
  host : c.host = node
  tags : ∀ tag ∈ point.tags, get c.tags tag.1 = some (.str tag.2)
  time : ∃ x, c.timestamp = .num x

theorem conveys_of_relays (hpoint : readPoint line = some point)
    (hname : point.measurement ∈ names) (hkey : point.field.1 = "message".toList)
    (hrelays : Relays jobinfo node line child) :
    ∃ c, Conveys jobinfo node point c ∧
      ∀ rb time, childActions rb time (.hash child) = c.actions rb time := by
  obtain ⟨tags, htags, hhost, hjobinfo, hall⟩ := hrelays.tags _ hpoint
  obtain ⟨fields, hfields, hmessage⟩ := hrelays.fields _ hpoint
  have hnamed := hrelays.name _ hpoint
  rw [hkey] at hmessage
  have hread : readMessage jobinfo fields = some (some point.field.2) := by
    rw [readMessage, hmessage]
  have hfetch (key value : Text) (hget : get tags key = some (.str value)) :
      fetch tags key = .str value := by
    rw [fetch, hget]
    rfl
  let c : Child := ⟨point.measurement, tags, fields, jobinfo, node,
    fetch child "timestamp".toList, some point.field.2⟩
  have hchild : readChild child point.measurement = some c := by
    rw [readChild, htags, hfields]
    simp only [Val.asHash, Option.bind_eq_bind, Option.bind_some, hfetch _ _ hjobinfo,
      hfetch _ _ hhost, Val.asText, hread]
    rfl
  refine ⟨c, ⟨rfl, rfl, rfl, rfl, hall, hrelays.time⟩, fun rb time => ?_⟩
  have hkeyFields : hasKey child "fields".toList :=
    hasKey_of_fetch_ne (by rw [hfields]; exact Val.noConfusion)
  have hkeyName : hasKey child "name".toList :=
    hasKey_of_fetch_ne (by rw [hnamed]; exact Val.noConfusion)
  rw [childActions, hkeyFields, hkeyName, hnamed]
  simp only [Bool.and_self, if_true, if_pos hname, namedActions, hchild]

theorem Conveys.bears (h : Conveys jobinfo node point c)
    (hname : point.measurement ∉ ["pre_team_pavilion_parser".toList,
      "pre_team_pavilion_hpl_parser".toList])
    (hquiet : Quiet jobinfo point.field.2) : Bears c point.field.2 :=
  ⟨h.name ▸ hname, h.message, h.jobinfo ▸ hquiet⟩

/-- A child of the library is one record. -/
theorem reports_of_relays (hjob : CarriesJob jobinfo) (h : Readable init_data entry)
    (hquiet : Quiet jobinfo entry.message)
    (hrelays : Relays jobinfo node (entry.line init_data) child) (rb : Runtime) :
    ∃ m out, (∀ time, childActions rb time (.hash child) = [.push m]) ∧
      stampRecord rb m = some out ∧
      Reports jobinfo node init_data.mpi_rank entry.message out.2 := by
  have hpoint := readPoint_line h
  have hname : "daap".toList ∈ names := by decide
  have hother : "daap".toList ∉
      ["pre_team_pavilion_parser".toList, "pre_team_pavilion_hpl_parser".toList] := by
    decide
  obtain ⟨c, hconveys, hactions⟩ := conveys_of_relays hpoint hname rfl hrelays
  have hbears : Bears c entry.message := hconveys.bears hother hquiet
  have hmpirank : get c.tags "mpirank".toList = some (.str (decimal init_data.mpi_rank)) :=
    hconveys.tags (MPI_RANK_KEY, decimal init_data.mpi_rank) (by simp [loggedPoint])
  have hjob' : CarriesJob c.jobinfo := hconveys.jobinfo ▸ hjob
  have htime : ∃ x, fetch c.newRec "timestamp".toList = .num x := by
    rw [fetch, newRec_timestamp, Option.getD_some]
    exact hconveys.time
  obtain ⟨record, hrecord, hkeys⟩ := stampRecord_keeps rb fun _ => htime
  refine ⟨c.newRec, _, fun time => (hactions rb time).trans (hbears.actions hconveys.name hjob' rb time),
    hrecord, ?_, ?_, ?_, fun key value hvalue => ?_⟩
  · exact (hconveys.jobinfo ▸ hbears.told).congr hkeys
  · rw [hkeys _ (by decide), ← hconveys.host]
    exact hbears.host
  · rw [hkeys _ (by decide)]
    exact hbears.get_mpirank_tag hmpirank
  · rw [← hconveys.jobinfo] at hvalue
    have hmem : key ∈ jobKeys := jobInfo_keys c.jobinfo _ (mem_of_get hvalue)
    have hkey : key ≠ "timestamp".toList := by
      rintro rfl
      exact absurd hmem (by decide)
    rw [hkeys key hkey]
    exact hbears.job hvalue

end Emission

/-- Each event has a batch of children in its `metrics`. -/
def Carries (rb : Runtime) (es : List PluginProcess.Event) (batches : List (List Record)) : Prop :=
  List.Forall₂ (fun e batch => ∃ record, parsedRecord rb e.2 = some record ∧
    elements (fetch record "metrics".toList) = some (batch.map .hash)) es batches

section Streams

variable {α β γ : Type*} {rb : Runtime}

theorem eventActions_of_carries {es : List PluginProcess.Event} {batches : List (List Record)}
    (h : Carries rb es batches) {f : Record → List Action}
    (hchildren : ∀ child ∈ batches.flatten, ∀ time, childActions rb time (.hash child) = f child) :
    es.flatMap (eventActions rb) = batches.flatten.flatMap f := by
  induction h with
  | nil => rfl
  | @cons e batch es batches hhead _ ih =>
      rw [List.flatten_cons, List.forall_mem_append] at hchildren
      obtain ⟨hbatch, hrest⟩ := hchildren
      obtain ⟨record, hparsed, helements⟩ := hhead
      rw [List.flatMap_cons, ih hrest, eventActions_children rb hparsed helements,
        List.flatten_cons, List.flatMap_append, List.flatMap_map]
      congr 1
      exact List.flatMap_congr fun child hchild => hbatch child hchild e.1

theorem mapM_of_forall₂ {R : α → γ → Prop} {f : β → Option γ} {xs : List α} {ys : List β}
    (h : List.Forall₂ (fun x y => ∃ z, f y = some z ∧ R x z) xs ys) :
    ∃ zs, ys.mapM f = some zs ∧ List.Forall₂ R xs zs := by
  induction h with
  | nil => exact ⟨[], rfl, .nil⟩
  | cons hhead _ ih =>
      obtain ⟨z, hz, hR⟩ := hhead
      obtain ⟨zs, hzs, hRs⟩ := ih
      refine ⟨z :: zs, ?_, .cons hR hRs⟩
      rw [mapM_cons_some, hz, hzs]
      rfl

theorem flatMap_of_forall₂ {R : α → γ → Prop} {f : β → List Action} {g : γ → Action} {xs : List α}
    {ys : List β} (h : List.Forall₂ (fun x y => ∃ z, f y = [g z] ∧ R x z) xs ys) :
    ∃ zs, ys.flatMap f = zs.map g ∧ List.Forall₂ R xs zs := by
  induction h with
  | nil => exact ⟨[], rfl, .nil⟩
  | cons hhead _ ih =>
      obtain ⟨z, hz, hR⟩ := hhead
      obtain ⟨zs, hzs, hRs⟩ := ih
      refine ⟨z :: zs, ?_, .cons hR hRs⟩
      rw [List.flatMap_cons, hz, hzs]
      rfl

theorem exists_of_mem_forall₂ {R : α → β → Prop} {xs : List α} {ys : List β}
    (h : List.Forall₂ R xs ys) {y : β} (hy : y ∈ ys) : ∃ x, R x y := by
  induction h with
  | nil => cases hy
  | cons hhead _ ih =>
      rcases List.mem_cons.mp hy with rfl | hy
      · exact ⟨_, hhead⟩
      · exact ih hy

/-- Where each child is one record, the plugin emits these in the order of the children. -/
theorem emitted_of_children {R : α → Record → Prop} {xs : List α} {batches : List (List Record)}
    {chunks : List Chunk} (hcarries : Carries rb (chunks.flatMap Chunk.es) batches)
    (h : List.Forall₂ (fun x child => ∃ m out,
      (∀ time, childActions rb time (.hash child) = [.push m]) ∧
        stampRecord rb m = some out ∧ R x out.2) xs batches.flatten) (jobs : Hash Text Job) :
    ∃ out, emitted rb jobs chunks = some out ∧
      List.Forall₂ (fun x record => R x record.2) xs out := by
  have hchildren : ∀ child ∈ batches.flatten, ∀ time,
      childActions rb time (.hash child) = childActions rb 0 (.hash child) := by
    intro child hchild time
    obtain ⟨x, m, out, hactions, -⟩ := exists_of_mem_forall₂ h hchild
    rw [hactions, hactions]
  have hpushes : List.Forall₂ (fun x child => ∃ m,
      childActions rb 0 (.hash child) = [Action.push m] ∧
        ∃ out, stampRecord rb m = some out ∧ R x out.2) xs batches.flatten := by
    refine h.imp fun x child hone => ?_
    obtain ⟨m, out, hactions, hstamp, hR⟩ := hone
    exact ⟨m, hactions 0, out, hstamp, hR⟩
  obtain ⟨ms, hms, hstamped⟩ := flatMap_of_forall₂ hpushes
  obtain ⟨out, hout, hR⟩ := mapM_of_forall₂ hstamped
  refine ⟨out, ?_, hR⟩
  rw [emitted_eq_process, process_emits, eventActions_of_carries hcarries hchildren, hms,
    List.mapM_map]
  exact hout

end Streams

end Children

section Interleavings

variable {ι α β : Type*} [DecidableEq ι]

/-- The items of one source among those of all. -/
def part (trace : List (ι × α)) (i : ι) : List α :=
  (trace.filter fun x => x.1 = i).map (·.2)

theorem part_cons (x : ι × α) (trace : List (ι × α)) (i : ι) :
    part (x :: trace) i = (if x.1 = i then [x.2] else []) ++ part trace i := by
  by_cases h : x.1 = i
  · simp [part, h]
  · simp [part, h]

theorem mem_part {x : ι × α} {trace : List (ι × α)} (h : x ∈ trace) : x.2 ∈ part trace x.1 :=
  List.mem_map_of_mem (List.mem_filter.mpr ⟨h, decide_eq_true rfl⟩)

/-- An interleaving of lists of images comes from one of the lists. -/
theorem exists_interleaved (f : ι → α → β) {trace : List (ι × β)} {lists : ι → List α}
    (h : ∀ i, part trace i = (lists i).map (f i)) :
    ∃ order : List (ι × α), trace = order.map (fun x => (x.1, f x.1 x.2)) ∧
      ∀ i, part order i = lists i := by
  induction trace generalizing lists with
  | nil =>
      refine ⟨[], rfl, fun i => ?_⟩
      exact (List.map_eq_nil_iff.mp (h i).symm).symm
  | cons x trace ih =>
      obtain ⟨a, rest, hlist⟩ : ∃ a rest, lists x.1 = a :: rest := by
        refine List.exists_cons_of_ne_nil fun hnil => ?_
        have hx := h x.1
        rw [hnil, part_cons, if_pos rfl] at hx
        cases hx
      have hhead := h x.1
      rw [hlist, part_cons, if_pos rfl, List.map_cons, List.singleton_append, List.cons.injEq]
        at hhead
      have hrest (i : ι) : part trace i = (Function.update lists x.1 rest i).map (f i) := by
        rcases eq_or_ne i x.1 with rfl | hi
        · rw [Function.update_self]
          exact hhead.2
        · have hother := h i
          rw [part_cons, if_neg hi.symm, List.nil_append] at hother
          rw [Function.update_of_ne hi, hother]
      obtain ⟨order, htrace, horder⟩ := ih hrest
      refine ⟨(x.1, a) :: order, ?_, fun i => ?_⟩
      · rw [List.map_cons, ← htrace, ← hhead.1]
      · rw [part_cons, horder]
        rcases eq_or_ne i x.1 with rfl | hi
        · rw [if_pos rfl, Function.update_self, hlist]
          rfl
        · rw [if_neg hi.symm, Function.update_of_ne hi]
          rfl

end Interleavings

section Jobs

open DaapLog.ChunkBoundaries
open DaapLog.LifeCycleMessages
open DaapLog.LinearPatterns
open DaapLog.OrderedHash
open DaapLog.PluginActions
open DaapLog.PluginChildren
open DaapLog.PluginProcess
open DaapLog.RubyValues

variable {ι : Type*} [DecidableEq ι] {rank : ι → Nat} {p : ι → Process}
  {name node jobinfo : ι → Text} {events : ι → List LibraryCalls.Event}

def flagJob : Text := "jobid=7 name=flag_perf_tests_a user=u".toList

theorem carriesJob_flagJob : CarriesJob flagJob :=
  @carriesJob_of_words [] ['7'] [' '] "flag_perf_tests_a".toList [' '] ['u'] []
    (by simp [notSpace]) (by simp [inLine]) (by simp [notSpace]) (by simp [inLine])
    (by simp [notSpace])

/-- A process that initialises with syslog, sends a heartbeat and finalises, with the
lengths of the three messages. -/
def flagProcess (rank : Fin 2) : Process where
  first := { syslogInit with env := pairEnv rank, io := { promptIo with msg_len := 15 } }
  more := []
  later := [.daapLogHeartbeat promptIo]
  env := pairEnv rank
  io := { promptIo with msg_len := 13 }

theorem launched_flagProcess (i : Fin 2) : Launched i (flagProcess i) := by
  refine ⟨fun env henv => ?_, fun env henv => ?_, fun c hc => .inl ?_,
    throughout_cons.mpr ⟨?_, fun r hr => throughout_cons.mpr ⟨?_, fun _ _ => throughout_nil⟩⟩⟩
  · obtain rfl : env = pairEnv i := by simpa [flagProcess, Process.environments] using henv
    rfl
  · obtain rfl : env = pairEnv i := by simpa [flagProcess, Process.environments] using henv
    rfl
  · rw [List.mem_singleton.mp hc]
    trivial
  · intro args hargs
    obtain rfl := Call.daapInit.inj hargs
    fin_cases i <;> rfl
  · intro args hargs
    simp at hargs

theorem readable_flagProcess : ∀ i : Fin 2, ∀ entry ∈ entries (flagProcess i),
    Readable (initData "gr0959".toList (flagProcess i).first) entry ∧
      Quiet flagJob entry.message := by
  decide +kernel

/-- The child for a message of rank `i`. -/
def relayed (i : Fin 2) (message : Text) : Record :=
  [("name".toList, .str "daap".toList),
    ("tags".toList, .hash [("host".toList, .str "gr0959".toList), ("jobinfo".toList, .str flagJob),
      ("appname".toList, .str "flag".toList), ("hostname".toList, .str "gr0959".toList),
      ("cluster".toList, .str "grizzly".toList), ("mpirank".toList, .str (decimal i))]),
    ("fields".toList, .hash [("message".toList, .str message)]),
    ("timestamp".toList, .num 1644527941)]

theorem relays_relayed {i : Fin 2} {entry : Entry} (h : entry ∈ entries (flagProcess i)) :
    Relays flagJob "gr0959".toList
      (entry.line (initData "gr0959".toList (flagProcess i).first)) (relayed i entry.message) := by
  have hpoint := readPoint_line (readable_flagProcess i entry h).1
  refine ⟨fun point hread => ?_, fun point hread => ?_, fun point hread => ?_, ⟨_, rfl⟩⟩
  · obtain rfl := Option.some.inj (hpoint.symm.trans hread)
    rfl
  · obtain rfl := Option.some.inj (hpoint.symm.trans hread)
    have hrank : decimal (initData "gr0959".toList (flagProcess i).first).mpi_rank = decimal i := by
      fin_cases i <;> decide +kernel
    refine ⟨_, rfl, rfl, rfl, ?_⟩
    rw [InfluxRoundTrip.loggedPoint, hrank]
    simp only [List.forall_mem_cons]
    exact ⟨rfl, rfl, rfl, rfl, List.forall_mem_nil _⟩
  · obtain rfl := Option.some.inj (hpoint.symm.trans hread)
    exact ⟨_, rfl, rfl⟩

/-- The heartbeat of the second process comes between the lines of the first. -/
def flagOrder (first second : Fin 2) : List (Fin 2 × Entry) :=
  [(first, ⟨jobstartText, { promptIo with msg_len := 15 }⟩), (second, ⟨heartbeatText, promptIo⟩),
    (first, ⟨heartbeatText, promptIo⟩), (first, ⟨jobendText, { promptIo with msg_len := 13 }⟩)]

def flagBatch (batch : List Record) : PluginProcess.Event :=
  (0, [("metrics".toList, .arr (batch.map .hash))])

/-- Two chunks, the second with two records of telegraf. -/
def flagChunks (first second : Fin 2) : List Chunk :=
  [⟨0, fun _ => true, [flagBatch [relayed first jobstartText, relayed second heartbeatText]]⟩,
    ⟨0, fun _ => true,
      [flagBatch [relayed first heartbeatText], flagBatch [relayed first jobendText]]⟩]

end Jobs

end DaapLog.JobRecords

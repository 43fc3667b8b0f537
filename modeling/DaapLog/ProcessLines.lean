import DaapLog.InfluxRoundTrip
import DaapLog.JobMarkers

/-!
The lines that a process writes between its first `daapInit` and its `daapFinalize`, one
for each message, and what telegraf reads from them.
-/

namespace DaapLog.ProcessLines

open DaapLog.BuildInflux
open DaapLog.CStrings
open DaapLog.InfluxRoundTrip
open DaapLog.JobMarkers
open DaapLog.LibraryCalls
open DaapLog.LibraryLifeCycle
open DaapLog.LineProtocol
open DaapLog.Runs
open DaapLog.TracedCalls

/-- The line that goes out with an event. -/
def lineOf : Event → Option Text
  | .influx _ init_data tstamp full_message => some (daapBuildInflux init_data tstamp full_message)
  | .rawInflux full_message => some (daapBuildRawInflux full_message)
  | _ => none

/-- A message and the surroundings of its call. -/
structure Entry where
  message : Text
  io : LogIo

def Entry.line (init_data : daap_init_t) (entry : Entry) : Text :=
  daapBuildInflux init_data entry.io.tstamp
    (fullMessage entry.io.msg_len entry.io.old entry.message)

/-- The message of a call that is not raw, in a library with a start time. -/
def logged (start_time : Nat) : Call → Option Entry
  | .daapLogWrite formatted io => some ⟨formatted, io⟩
  | .daapLogHeartbeat io => some ⟨heartbeatText, io⟩
  | .daapLogJobStart io => some ⟨jobstartText, io⟩
  | .daapLogJobDuration cur_time io =>
      some ⟨({ start_time := start_time } : Library).jobdurationText cur_time, io⟩
  | .daapLogJobEnd io => some ⟨jobendText, io⟩
  | _ => none

/-- Rank 0 logs start and end of the job, and so does a process without a rank. -/
def marks (args : InitArgs) : Bool :=
  (args.env.rank.map fun rank => decide (rank = ['0'])).getD true

/-- The messages of a process in their order. -/
def entries (p : Process) : List Entry :=
  (if marks p.first then [⟨jobstartText, p.first.io⟩] else []) ++
    p.later.filterMap (logged p.first.time) ++
    if marks p.first then [⟨jobendText, p.io⟩] else []

section Lines

variable {l : Library} {init_data : daap_init_t}

theorem lineOf_transmit (l : Library) (influx_str : Text) (io : TlsTransport.WriteIo) :
    (l.transmit influx_str io).2.1.filterMap lineOf = [] := by
  refine List.filterMap_eq_nil_iff.mpr fun event hevent => ?_
  rcases transmit_events l hevent with ⟨e, rfl⟩ | rfl
  · rfl
  · rfl

theorem lines_daapLogWrite (hcalled : l.daapInit_called = true) (hdata : l.init_data = some init_data)
    (origin : Origin) (entry : Entry) :
    (l.daapLogWrite origin entry.message entry.io).2.1.filterMap lineOf =
      [entry.line init_data] := by
  have hline : lineOf (.influx origin init_data entry.io.tstamp
      (fullMessage entry.io.msg_len entry.io.old entry.message)) = some (entry.line init_data) := rfl
  rw [Library.daapLogWrite, if_neg (by simp [hcalled]), hdata]
  dsimp only
  rw [List.filterMap_cons_some hline, lineOf_transmit]

/-- Logging changes the transport only. -/
def SameData (l l' : Library) : Prop := ∃ tls, l' = { l with tls := tls }

theorem SameData.trans {l l' l'' : Library} (h : SameData l l') (h' : SameData l' l'') :
    SameData l l'' := by
  obtain ⟨tls, rfl⟩ := h
  obtain ⟨tls', rfl⟩ := h'
  exact ⟨tls', rfl⟩

theorem perform_logged {c : Call} {entry : Entry} (hlogged : logged l.start_time c = some entry) :
    c.perform l = Call.perform.log l entry.message entry.io := by
  cases c with
  | daapInit args => cases hlogged
  | daapFinalize env io => cases hlogged
  | daapSetRank rank => cases hlogged
  | daapLogRawWrite formatted io => cases hlogged
  | _ =>
      obtain rfl := Option.some.inj hlogged
      rfl

/-- What a further call of a process does: `daapInit` nothing, the others write a line. -/
theorem lines_perform (hcalled : l.daapInit_called = true) (hdata : l.init_data = some init_data)
    {c : Call} (hc : (∃ args, c = .daapInit args) ∨ (logged l.start_time c).isSome = true) :
    SameData l (c.perform l).1 ∧ (c.perform l).2.1.filterMap lineOf =
      ([c].filterMap (logged l.start_time)).map (Entry.line init_data) := by
  rcases hc with ⟨args, rfl⟩ | hc
  · rw [Call.perform, daapInit_of_called hcalled]
    exact ⟨⟨l.tls, rfl⟩, rfl⟩
  · obtain ⟨entry, hentry⟩ := Option.isSome_iff_exists.mp hc
    rw [perform_logged hentry, List.filterMap_cons_some hentry, List.filterMap_nil,
      List.map_singleton]
    exact ⟨daapLogWrite_frame l .caller entry.message entry.io,
      lines_daapLogWrite hcalled hdata .caller entry⟩

theorem lines_run (hcalled : l.daapInit_called = true) (hdata : l.init_data = some init_data)
    {calls : List Call}
    (hcalls : ∀ c ∈ calls, (∃ args, c = .daapInit args) ∨ (logged l.start_time c).isSome = true)
    {r : Library × List Event} (hrun : run step l calls = some r) :
    SameData l r.1 ∧ r.2.filterMap lineOf =
      (calls.filterMap (logged l.start_time)).map (Entry.line init_data) := by
  induction calls generalizing l r with
  | nil =>
      obtain rfl := Option.some.inj hrun
      exact ⟨⟨l.tls, rfl⟩, rfl⟩
  | cons c rest ih =>
      obtain ⟨hc, hrest⟩ := List.forall_mem_cons.mp hcalls
      obtain ⟨first, hfirst, hrun⟩ := Option.bind_eq_some_iff.mp hrun
      obtain ⟨later, hlater, rfl⟩ := Option.map_eq_some_iff.mp hrun
      obtain ⟨-, rfl⟩ := step_eq_some_iff.mp hfirst
      obtain ⟨hsame, hlines⟩ := lines_perform hcalled hdata hc
      obtain ⟨tls, htls⟩ := hsame
      rw [htls] at hlater
      obtain ⟨hsame', hlines'⟩ := ih (l := { l with tls := tls }) hcalled hdata hrest hlater
      refine ⟨SameData.trans ⟨tls, rfl⟩ hsame', ?_⟩
      rw [List.filterMap_append, hlines, hlines', ← List.map_append, ← List.filterMap_append]
      rfl

theorem lines_daapFinalize (env : Environment) (io : LogIo) :
    (l.daapFinalize env io).2.1.filterMap lineOf = (l.finalMessage env io).2.1.filterMap lineOf := by
  rw [Library.daapFinalize, filterMap_andThen, Library.closeTransport, filterMap_andThen]
  · intro ret_val event hevent
    obtain ⟨e, -, rfl⟩ := List.mem_map.mp hevent
    rfl
  · intro ret_val event hevent
    obtain ⟨str, -, rfl⟩ := List.mem_map.mp hevent
    rfl

end Lines

section Processes

variable {p : Process} {name : Text} {events : List Event}

/-- The data of a process that its lines are formatted from. -/
def initData (name : Text) (args : InitArgs) : daap_init_t where
  appname := args.app_name
  hostname := name
  cluster_name := args.cluster_name
  mpi_rank := (args.env.rank.map atoi).getD 0
  level := ({} : Library).level
  transport_type := args.transport_type
  start_time := args.time

/-- A library that writes the lines of a process. -/
structure Writes (name : Text) (args : InitArgs) (l : Library) : Prop where
  called : l.daapInit_called = true
  zero : l.daapRank_zero = marks args
  data : l.init_data = some (initData name args)
  start : l.start_time = args.time

theorem Writes.of_sameData {args : InitArgs} {l l' : Library} (h : Writes name args l)
    (hsame : SameData l l') : Writes name args l' := by
  obtain ⟨tls, rfl⟩ := hsame
  exact ⟨h.called, h.zero, h.data, h.start⟩

/-- A library that no call has set up. -/
structure Fresh (l : Library) : Prop where
  called : l.daapInit_called = false
  zero : l.daapRank_zero = false
  level : l.level = ({} : Library).level

theorem fresh_start : Fresh {} := ⟨rfl, rfl, rfl⟩

theorem Fresh.startInit {l : Library} (h : Fresh l) (args : InitArgs) : Fresh (l.startInit args) :=
  ⟨h.called, h.zero, h.level⟩

section Start

variable {l : Library} {args : InitArgs}

theorem finishInit_writes (hfresh : Fresh l) (hauto : args.env.automatic = true)
    (tls : TlsTransport.Tls) :
    Writes name args ({ l.populate args name with tls := tls }.finishInit args).1 ∧
      ({ l.populate args name with tls := tls }.finishInit args).2.1.filterMap lineOf =
        (if marks args then [(⟨jobstartText, args.io⟩ : Entry)] else []).map
          (Entry.line (initData name args)) := by
  have hread : { { l.populate args name with tls := tls } with
      daapInit_called := true }.readRank args.env =
        { l.populate args name with
          tls := tls, daapInit_called := true, daapRank_zero := marks args,
          mpi_rank := (args.env.rank.map atoi).getD 0 } := by
    rw [Library.readRank, marks, hauto]
    cases args.env.rank with
    | none => simp [Library.populate, Library.startInit]
    | some rank => simp [Library.populate, Library.startInit, hfresh.zero]
  have hwrites : Writes name args { l.populate args name with
      tls := tls, daapInit_called := true, daapRank_zero := marks args,
      mpi_rank := (args.env.rank.map atoi).getD 0 } := by
    refine ⟨rfl, rfl, ?_, rfl⟩
    rw [initData, ← hfresh.level]
    rfl
  rw [Library.finishInit, hread, hauto, Bool.and_true]
  by_cases h : marks args = true
  · rw [if_pos h, if_pos h, List.map_singleton]
    exact ⟨hwrites.of_sameData (daapLogWrite_frame _ .jobStart jobstartText args.io),
      lines_daapLogWrite hwrites.called hwrites.data .jobStart ⟨jobstartText, args.io⟩⟩
  · rw [if_neg h, if_neg h]
    exact ⟨hwrites, rfl⟩

theorem daapInit_writes (hfresh : Fresh l) (hauto : args.env.automatic = true)
    (hname : args.hostname = .ok name) {value : Int}
    (hreturns : (l.daapInit args).2.2 = .returns value) :
    Writes name args (l.daapInit args).1 ∧
      (l.daapInit args).2.1.filterMap lineOf =
        (if marks args then [(⟨jobstartText, args.io⟩ : Entry)] else []).map
          (Entry.line (initData name args)) := by
  rw [daapInit_of_ok hfresh.called hname] at hreturns ⊢
  rcases initTransport_cases (l.populate args name) args with ⟨-, hfinish⟩ |
    ⟨value, -, hfinish⟩ | hstuck
  · rw [hfinish]
    exact finishInit_writes hfresh hauto _
  · rw [hfinish]
    exact finishInit_writes hfresh hauto _
  · rw [hstuck] at hreturns
    cases hreturns

/-- The only line of `daapFinalize`. -/
theorem lines_end (h : Writes name args l) {env : Environment} (hauto : env.automatic = true)
    (io : LogIo) :
    (l.daapFinalize env io).2.1.filterMap lineOf =
      (if marks args then [(⟨jobendText, io⟩ : Entry)] else []).map
        (Entry.line (initData name args)) := by
  rw [lines_daapFinalize, Library.finalMessage, h.zero, hauto, Bool.and_true]
  by_cases hmarks : marks args = true
  · rw [if_pos hmarks, if_pos hmarks, List.map_singleton]
    exact lines_daapLogWrite h.called h.data .jobEnd ⟨jobendText, io⟩
  · rw [if_neg hmarks, if_neg hmarks]
    rfl

end Start

/-- All lines of a process, from its start to its end. -/
theorem lines_process (hauto : ∀ env ∈ p.environments, env.automatic = true)
    (hname : p.first.hostname = .ok name)
    (hlater : ∀ c ∈ p.later, (logged p.first.time c).isSome = true)
    (hevents : p.events = some events) :
    events.filterMap lineOf = (entries p).map (Entry.line (initData name p.first)) := by
  obtain ⟨r, hrun, rfl⟩ := Option.map_eq_some_iff.mp hevents
  obtain ⟨start, hstart, hrun⟩ := Option.bind_eq_some_iff.mp hrun
  obtain ⟨back, hback, rfl⟩ := Option.map_eq_some_iff.mp hrun
  obtain ⟨⟨ret, hret⟩, rfl⟩ := step_eq_some_iff.mp hstart
  obtain ⟨value, hvalue, -⟩ := Ending.map_eq_returns_iff.mp hret
  obtain ⟨hwrites, hlines⟩ :=
    daapInit_writes fresh_start (hauto p.first.env (by simp [Process.environments])) hname hvalue
  have hcalls : ∀ c ∈ p.more.map Call.daapInit ++ p.later,
      (∃ args, c = .daapInit args) ∨ (logged p.first.time c).isSome = true := by
    intro c hc
    rcases List.mem_append.mp hc with hc | hc
    · obtain ⟨args, -, rfl⟩ := List.mem_map.mp hc
      exact .inl ⟨args, rfl⟩
    · exact .inr (hlater c hc)
  rw [← hwrites.start] at hcalls
  obtain ⟨hsame, hmiddle⟩ := lines_run hwrites.called hwrites.data hcalls hback
  have hmore : (p.more.map Call.daapInit).filterMap (logged p.first.time) = [] := by
    refine List.filterMap_eq_nil_iff.mpr fun c hc => ?_
    obtain ⟨args, -, rfl⟩ := List.mem_map.mp hc
    rfl
  rw [hwrites.start, List.filterMap_append, hmore, List.nil_append] at hmiddle
  have hend : ((Call.daapFinalize p.env p.io).perform back.1).2.1.filterMap lineOf =
      (if marks p.first then [(⟨jobendText, p.io⟩ : Entry)] else []).map
        (Entry.line (initData name p.first)) :=
    lines_end (hwrites.of_sameData hsame) (hauto p.env List.mem_cons_self) p.io
  rw [List.filterMap_append, List.filterMap_append, hend, hmiddle, entries,
    List.map_append, List.map_append]
  exact congrArg (· ++ _ ++ _) hlines

theorem initData_of_launched {rank : Nat} (h : Launched rank p) (hrank : rank < 2 ^ 31)
    (name : Text) : (initData name p.first).mpi_rank = rank := by
  rw [initData, h.rank p.first.env (by simp [Process.environments])]
  exact atoi_decimal (by omega) (by exact_mod_cast hrank)

end Processes

/-- An entry whose line telegraf reads back. -/
structure Readable (init_data : daap_init_t) (entry : Entry) : Prop where
  printed : entry.io.msg_len = entry.message.length
  fits : FitsInflux init_data entry.io.tstamp entry.message
  names : TagValue init_data.appname ∧ TagValue init_data.hostname ∧ TagValue init_data.cluster_name
  plain : Plain entry.message

instance (init_data : daap_init_t) (timestamp : Int) (message : Text) :
    Decidable (FitsInflux init_data timestamp message) :=
  inferInstanceAs (Decidable (_ ∧ _ ∧ _))

instance (init_data : daap_init_t) (entry : Entry) : Decidable (Readable init_data entry) :=
  decidable_of_iff (entry.io.msg_len = entry.message.length ∧
    FitsInflux init_data entry.io.tstamp entry.message ∧
    (TagValue init_data.appname ∧ TagValue init_data.hostname ∧
      TagValue init_data.cluster_name) ∧ Plain entry.message)
    ⟨fun ⟨hprinted, hfits, hnames, hplain⟩ => ⟨hprinted, hfits, hnames, hplain⟩,
      fun h => ⟨h.printed, h.fits, h.names, h.plain⟩⟩

theorem readPoint_line {init_data : daap_init_t} {entry : Entry} (h : Readable init_data entry) :
    readPoint (entry.line init_data) =
      some (loggedPoint init_data entry.message (entry.io.tstamp * 1000000)) := by
  have hlength : entry.message.length ≤ DAAP_MAX_MSG_LEN := by
    have := h.fits.1
    rw [DAAP_MAX_MSG_LEN]
    omega
  rw [Entry.line, h.printed, fullMessage_eq_take, List.take_of_length_le hlength,
    daapBuildInflux_of_fits h.fits]
  exact (readPoint_influxLine_iff init_data entry.message _).mpr ⟨h.names, h.plain⟩

end DaapLog.ProcessLines

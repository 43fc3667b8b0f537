import DaapLog.TlsLifeCycle

/-!
The priority of the lines that go to syslog. `daapInit` gives its `msg_level` to `openlog`
at most, as the facility, and stores it nowhere: the lines get the `level` of `init_data`,
which no call sets.
-/

namespace DaapLog.SyslogLevel

open DaapLog.CStrings
open DaapLog.BuildInflux (DAAP_SUCCESS)
open DaapLog.LibraryCalls
open DaapLog.LibraryLifeCycle
open DaapLog.TlsLifeCycle
open DaapLog.Runs
open DaapLog.TracedCalls

/-- `daapInit(app_name, msg_level, agg_val, SYSLOG)`. -/
structure SyslogInit extends InitArgs where
  msg_level : Int
  agg_val : Int
  syslog : transport_type = .SYSLOG

/-- The priorities that `syslog` is called with. -/
def priorities (events : List Event) : List Int :=
  events.filterMap fun
    | .syslog level _ => some level
    | _ => none

/-- An initialised library that writes to syslog. -/
structure OnSyslog (l : Library) : Prop where
  called : l.daapInit_called = true
  syslog : l.transport_type = .SYSLOG
  level : l.level = 0
  named : ∃ names, Holds l names

/-- `daapInit` logs the start of the job. -/
def LogsStart (env : Environment) : Prop :=
  env.automatic = true ∧ ∀ rank, env.rank = some rank → rank = ['0']

section Calls

variable {l : Library}

theorem transmit_onSyslog (h : OnSyslog l) (influx_str : Text) (io : TlsTransport.WriteIo) :
    l.transmit influx_str io = (l, [.syslog 0 influx_str], .returns DAAP_SUCCESS) := by
  rw [Library.transmit, h.syslog, ← h.level]

/-- A call keeps the library, and what it logs goes out with priority 0. -/
theorem daapLogWrite_onSyslog (h : OnSyslog l) (origin : Origin) (formatted : Text) (io : LogIo) :
    (l.daapLogWrite origin formatted io).1 = l ∧
      priorities (l.daapLogWrite origin formatted io).2.1 = [0] ∧
      (l.daapLogWrite origin formatted io).2.2 = .returns DAAP_SUCCESS := by
  obtain ⟨init_data, hdata⟩ := Option.isSome_iff_exists.mp (init_data_isSome_iff.mpr h.named)
  have hnot : ¬(!l.daapInit_called) = true := by simp [h.called]
  rw [Library.daapLogWrite, if_neg hnot, hdata]
  dsimp only
  rw [transmit_onSyslog h]
  exact ⟨rfl, rfl, rfl⟩

theorem daapLogRawWrite_onSyslog (h : OnSyslog l) (formatted : Text) (io : LogIo) :
    (l.daapLogRawWrite formatted io).1 = l ∧
      priorities (l.daapLogRawWrite formatted io).2.1 = [0] ∧
      (l.daapLogRawWrite formatted io).2.2 = .returns DAAP_SUCCESS := by
  have hnot : ¬(!l.daapInit_called) = true := by simp [h.called]
  rw [Library.daapLogRawWrite, if_neg hnot]
  dsimp only
  rw [transmit_onSyslog h]
  exact ⟨rfl, rfl, rfl⟩

/-- What a call does on a library that writes to syslog. -/
structure StaysOnSyslog (c : Call) (r : Traced Library Event (Option Int)) : Prop where
  returns : ∃ ret, r.2.2 = .returns ret
  state : OnSyslog r.1
  logs : Call.Logs c → priorities r.2.1 = [0]
  silent : ¬Call.Logs c → priorities r.2.1 = []

theorem log_onSyslog (h : OnSyslog l) {c : Call} (hlogs : Call.Logs c) (formatted : Text)
    (io : LogIo) : StaysOnSyslog c (Call.perform.log l formatted io) := by
  obtain ⟨hstate, hpriorities, hending⟩ := daapLogWrite_onSyslog h .caller formatted io
  rw [Call.perform.log]
  refine ⟨⟨some DAAP_SUCCESS, ?_⟩, ?_, fun _ => hpriorities, fun hnot => absurd hlogs hnot⟩
  · rw [hending]
    rfl
  · rw [hstate]
    exact h

theorem perform_onSyslog (h : OnSyslog l) {c : Call} (hc : ¬Call.Finalizes c) :
    StaysOnSyslog c (c.perform l) := by
  cases c with
  | daapInit args =>
      rw [Call.perform, daapInit_of_called h.called]
      exact ⟨⟨_, rfl⟩, h, fun hlogs => absurd hlogs id, fun _ => rfl⟩
  | daapFinalize env io => exact absurd trivial hc
  | daapSetRank rank =>
      exact ⟨⟨none, rfl⟩, ⟨h.called, h.syslog, h.level, h.named⟩, fun hlogs => absurd hlogs id,
        fun _ => rfl⟩
  | daapLogRawWrite formatted io =>
      obtain ⟨hstate, hpriorities, hending⟩ := daapLogRawWrite_onSyslog h formatted io
      rw [Call.perform]
      refine ⟨⟨some DAAP_SUCCESS, ?_⟩, ?_, fun _ => hpriorities, fun hnot => absurd trivial hnot⟩
      · rw [hending]
        rfl
      · rw [hstate]
        exact h
  | daapLogWrite formatted io => exact log_onSyslog (c := .daapLogWrite formatted io) h trivial _ io
  | daapLogHeartbeat io => exact log_onSyslog (c := .daapLogHeartbeat io) h trivial _ io
  | daapLogJobStart io => exact log_onSyslog (c := .daapLogJobStart io) h trivial _ io
  | daapLogJobDuration cur_time io =>
      exact log_onSyslog (c := .daapLogJobDuration cur_time io) h trivial _ io
  | daapLogJobEnd io => exact log_onSyslog (c := .daapLogJobEnd io) h trivial _ io

theorem priorities_append (front back : List Event) :
    priorities (front ++ back) = priorities front ++ priorities back :=
  List.filterMap_append

/-- Every run gets to its end, all of its lines have priority 0, and it has no line only
if it has no log call. -/
theorem run_onSyslog (h : OnSyslog l) {calls : List Call}
    (hcalls : ∀ c ∈ calls, ¬Call.Finalizes c) :
    ∃ r, run step l calls = some r ∧ (∀ level ∈ priorities r.2, level = 0) ∧
      (priorities r.2 = [] ↔ ∀ c ∈ calls, ¬Call.Logs c) := by
  induction calls generalizing l with
  | nil => exact ⟨(l, []), rfl, by simp [priorities], by simp [priorities]⟩
  | cons c rest ih =>
      obtain ⟨hc, hrest⟩ := List.forall_mem_cons.mp hcalls
      have hstays := perform_onSyslog h hc
      obtain ⟨later, hlater, hlevels, hnone⟩ := ih hstays.state hrest
      have hstep : step l c = some ((c.perform l).1, (c.perform l).2.1) :=
        step_eq_some_iff.mpr ⟨hstays.returns, rfl⟩
      refine ⟨(later.1, (c.perform l).2.1 ++ later.2), ?_, ?_, ?_⟩
      · rw [run, hstep, Option.bind_some, hlater]
        rfl
      · rw [priorities_append, List.forall_mem_append]
        refine ⟨fun level hlevel => ?_, hlevels⟩
        by_cases hlogs : Call.Logs c
        · rw [hstays.logs hlogs] at hlevel
          exact List.mem_singleton.mp hlevel
        · rw [hstays.silent hlogs] at hlevel
          exact absurd hlevel List.not_mem_nil
      · rw [priorities_append, List.append_eq_nil_iff, hnone, List.forall_mem_cons]
        refine and_congr_left fun _ => ?_
        by_cases hlogs : Call.Logs c
        · simp [hstays.logs hlogs, hlogs]
        · simp [hstays.silent hlogs, hlogs]

end Calls

section Initialising

theorem logsStart_iff (init : SyslogInit) (name : Text) :
    ((({ Library.populate {} init.toInitArgs name with
        daapInit_called := true }).readRank init.env).daapRank_zero && init.env.automatic) = true ↔
      LogsStart init.env := by
  rw [readRank_daapRank_zero, Bool.and_eq_true, LogsStart, and_comm]
  refine and_congr_right fun hauto => ?_
  cases hrank : init.env.rank with
  | none => simp [hauto]
  | some rank => simp [Library.populate, Library.startInit]

theorem startInit_onSyslog (init : SyslogInit) (name : Text) :
    OnSyslog (({ Library.populate {} init.toInitArgs name with
      daapInit_called := true }).readRank init.env) := by
  obtain ⟨zero, rank, hrank⟩ := readRank_frame
    { Library.populate {} init.toInitArgs name with daapInit_called := true } init.env
  rw [hrank]
  exact ⟨rfl, init.syslog, rfl, _, holds_populate {} init.toInitArgs name {}⟩

theorem daapInit_onSyslog {init : SyslogInit}
    (hsuccess : (Library.daapInit {} init.toInitArgs).2.2 = .returns DAAP_SUCCESS) :
    OnSyslog (Library.daapInit {} init.toInitArgs).1 ∧
      (LogsStart init.env → priorities (Library.daapInit {} init.toInitArgs).2.1 = [0]) ∧
      (¬LogsStart init.env → priorities (Library.daapInit {} init.toInitArgs).2.1 = []) := by
  cases hname : init.hostname with
  | error error =>
      rw [daapInit_of_error rfl hname] at hsuccess
      cases error <;> exact absurd (Ending.returns.inj hsuccess) (by decide)
  | ok name =>
      have htcp : init.transport_type ≠ .TCP := by
        rw [init.syslog]
        exact nofun
      have hready := startInit_onSyslog init name
      have hlogs := logsStart_iff init name
      rw [daapInit_of_ok rfl hname, initTransport_of_not_tcp htcp, Library.finishInit]
      by_cases hstart : LogsStart init.env
      · obtain ⟨hstate, hpriorities, -⟩ :=
          daapLogWrite_onSyslog hready .jobStart jobstartText init.io
        rw [if_pos (hlogs.mpr hstart), hstate]
        exact ⟨hready, fun _ => hpriorities, fun hnot => absurd hstart hnot⟩
      · rw [if_neg (fun h => hstart (hlogs.mp h))]
        exact ⟨hready, fun h => absurd h hstart, fun _ => rfl⟩

end Initialising

/-- A run that starts with a successful `daapInit` for syslog and goes on with any calls but
`daapFinalize` writes all lines with the priority it was given exactly if that is 0 or
there is no line: the start of the job is not logged and no log call follows. -/
theorem run_priorities_iff (init : SyslogInit)
    (hsuccess : (Library.daapInit {} init.toInitArgs).2.2 = .returns DAAP_SUCCESS)
    {calls : List Call} (hcalls : ∀ c ∈ calls, ¬Call.Finalizes c) :
    (∀ r, run step {} (.daapInit init.toInitArgs :: calls) = some r →
        ∀ level ∈ priorities r.2, level = init.msg_level) ↔
      init.msg_level = 0 ∨ ¬LogsStart init.env ∧ ∀ c ∈ calls, ¬Call.Logs c := by
  obtain ⟨hready, hstart, hsilent⟩ := daapInit_onSyslog hsuccess
  obtain ⟨later, hlater, hlevels, hnone⟩ := run_onSyslog hready hcalls
  have hstep : step {} (.daapInit init.toInitArgs) =
      some ((Library.daapInit {} init.toInitArgs).1, (Library.daapInit {} init.toInitArgs).2.1) :=
    step_eq_some_iff.mpr ⟨⟨some DAAP_SUCCESS, by rw [Call.perform, hsuccess]; rfl⟩, rfl⟩
  have hrun : run step {} (.daapInit init.toInitArgs :: calls) =
      some (later.1, (Library.daapInit {} init.toInitArgs).2.1 ++ later.2) := by
    rw [run, hstep, Option.bind_some, hlater]
    rfl
  have hzero : ∀ level ∈ priorities ((Library.daapInit {} init.toInitArgs).2.1 ++ later.2),
      level = 0 := by
    rw [priorities_append, List.forall_mem_append]
    refine ⟨fun level hlevel => ?_, hlevels⟩
    by_cases h : LogsStart init.env
    · rw [hstart h] at hlevel
      exact List.mem_singleton.mp hlevel
    · rw [hsilent h] at hlevel
      exact absurd hlevel List.not_mem_nil
  have hempty : priorities ((Library.daapInit {} init.toInitArgs).2.1 ++ later.2) = [] ↔
      ¬LogsStart init.env ∧ ∀ c ∈ calls, ¬Call.Logs c := by
    rw [priorities_append, List.append_eq_nil_iff, hnone]
    refine and_congr_left fun _ => ?_
    by_cases h : LogsStart init.env
    · simp [hstart h, h]
    · simp [hsilent h, h]
  rw [hrun, ← hempty]
  constructor
  · intro h
    refine or_iff_not_imp_right.mpr fun hsome => ?_
    obtain ⟨level, hlevel⟩ := List.exists_mem_of_ne_nil _ hsome
    exact (h _ rfl level hlevel).symm.trans (hzero level hlevel)
  · rintro hcond r hr level hlevel
    rw [← Option.some.inj hr] at hlevel
    rcases hcond with h | h
    · rw [h]
      exact hzero level hlevel
    · rw [h] at hlevel
      exact absurd hlevel List.not_mem_nil

def emergInit : SyslogInit := { syslogInit with msg_level := 0, agg_val := 0, syslog := rfl }

theorem run_priorities_emerg :
    emergInit.msg_level = 0 ∧
      ∀ r, run step {} [.daapInit emergInit.toInitArgs, .daapLogHeartbeat promptIo] = some r →
        ∀ level ∈ priorities r.2, level = emergInit.msg_level :=
  ⟨rfl, (run_priorities_iff emergInit rfl
    (List.forall_mem_singleton.mpr id)).mpr (Or.inl rfl)⟩

/-- `LOG_NOTICE`, as in the results parser. -/
def noticeInit : SyslogInit := { syslogInit with msg_level := 5, agg_val := 0, syslog := rfl }

/-- A heartbeat goes out with priority 0, `LOG_EMERG`. -/
theorem run_priorities_fail_on_notice :
    (Library.daapInit {} noticeInit.toInitArgs).2.2 = .returns DAAP_SUCCESS ∧
      ¬∀ r, run step {} [.daapInit noticeInit.toInitArgs, .daapLogHeartbeat promptIo] = some r →
        ∀ level ∈ priorities r.2, level = noticeInit.msg_level := by
  refine ⟨rfl, fun h => ?_⟩
  have hlevel := h _ rfl 0 List.mem_cons_self
  exact absurd hlevel (by decide)

end DaapLog.SyslogLevel

import DaapLog.LibraryLifeCycle

/-!
The automatic messages about start and end of a parallel job.
-/

namespace DaapLog.JobMarkers

open DaapLog.CStrings
open DaapLog.BuildInflux (daap_init_t DAAP_SUCCESS fullMessage)
open DaapLog.LibraryCalls
open DaapLog.LibraryLifeCycle
open DaapLog.Runs
open DaapLog.TracedCalls

/-- The calls of one process of a job: `daapInit`, once or more often, other calls and
one `daapFinalize`. -/
structure Process where
  first : InitArgs
  more : List InitArgs
  later : List Call
  env : Environment
  io : LogIo

namespace Process

def calls (p : Process) : List Call :=
  (p.first :: p.more).map .daapInit ++ p.later

def environments (p : Process) : List Environment :=
  p.env :: (p.first :: p.more).map (·.env)

/-- All that the process does if it gets to its `daapFinalize`. -/
def events (p : Process) : Option (List Event) :=
  (run step {} p.calls).map fun r =>
    r.2 ++ ((Call.daapFinalize p.env p.io).perform r.1).2.1

end Process

def Succeeds (l : Library) (c : Call) : Prop :=
  ∀ args, c = .daapInit args → (c.perform l).2.2 = .returns (some DAAP_SUCCESS)

/-- The process is started with a rank in decimal, it leaves the messages about the job to
the library, and its calls are as they should be. -/
structure Launched (rank : Nat) (p : Process) : Prop where
  rank : ∀ env ∈ p.environments, env.rank = some (decimal rank)
  automatic : ∀ env ∈ p.environments, env.automatic = true
  later : ∀ c ∈ p.later, Call.Logs c ∨ ∃ rank, c = .daapSetRank rank
  succeeds : Throughout step (fun _ => Succeeds) {} p.calls

def isStart : Event → Bool
  | .influx .jobStart _ _ _ => true
  | _ => false

def isEnd : Event → Bool
  | .influx .jobEnd _ _ _ => true
  | _ => false

/-- The start, with rank 0, stands in front of all else, and there is one end. -/
structure MarksJob (p : Process) (events : List Event) : Prop where
  start : ∃ init_data rest,
    events = .influx .jobStart init_data p.first.io.tstamp
      (fullMessage p.first.io.msg_len p.first.io.old jobstartText) :: rest ∧
      init_data.mpi_rank = 0 ∧ rest.countP isStart = 0
  finish : ∃ init_data,
    .influx .jobEnd init_data p.io.tstamp (fullMessage p.io.msg_len p.io.old jobendText) ∈ events
  once : events.countP isEnd = 1

def Unmarked (events : List Event) : Prop :=
  events.countP isStart = 0 ∧ events.countP isEnd = 0

/-- An initialised library that marks the job or does not. -/
def Ready (zero : Bool) (l : Library) : Prop :=
  l.daapInit_called = true ∧ l.daapRank_zero = zero ∧ ∃ names, Holds l names

section Lines

variable {l : Library} {zero : Bool}

theorem ready_of_tls {l' : Library} {tls : TlsTransport.Tls} (h : l' = { l with tls := tls })
    (hready : Ready zero l) : Ready zero l' := by
  subst h
  exact hready

@[simp]
theorem unmarked_nil : Unmarked [] := ⟨rfl, rfl⟩

theorem unmarked_cons {event : Event} {events : List Event} (hstart : isStart event = false)
    (hend : isEnd event = false) (hevents : Unmarked events) : Unmarked (event :: events) := by
  rw [Unmarked, List.countP_cons, List.countP_cons, hstart, hend, hevents.1, hevents.2]
  exact ⟨rfl, rfl⟩

theorem unmarked_append {front back : List Event} (hfront : Unmarked front)
    (hback : Unmarked back) : Unmarked (front ++ back) := by
  rw [Unmarked, List.countP_append, List.countP_append, hfront.1, hfront.2, hback.1, hback.2]
  exact ⟨rfl, rfl⟩

theorem unmarked_transmit (l : Library) (influx_str : Text) (io : TlsTransport.WriteIo) :
    Unmarked (l.transmit influx_str io).2.1 := by
  have hplain : ∀ event ∈ (l.transmit influx_str io).2.1,
      isStart event = false ∧ isEnd event = false := by
    intro event hevent
    rcases transmit_events l hevent with ⟨e, rfl⟩ | rfl
    · exact ⟨rfl, rfl⟩
    · exact ⟨rfl, rfl⟩
  constructor
  · exact List.countP_eq_zero.mpr fun event hevent => by simp [(hplain event hevent).1]
  · exact List.countP_eq_zero.mpr fun event hevent => by simp [(hplain event hevent).2]

theorem daapLogWrite_of_ready (hready : Ready zero l) (origin : Origin) (formatted : Text)
    (io : LogIo) :
    ∃ init_data rest, l.init_data = some init_data ∧
      (l.daapLogWrite origin formatted io).2.1 =
        .influx origin init_data io.tstamp (fullMessage io.msg_len io.old formatted) :: rest ∧
      Unmarked rest := by
  obtain ⟨hcalled, -, names, hholds⟩ := hready
  obtain ⟨init_data, hdata⟩ := Option.isSome_iff_exists.mp (init_data_isSome_iff.mpr ⟨names, hholds⟩)
  refine ⟨init_data, _, hdata, ?_, unmarked_transmit l
    (BuildInflux.daapBuildInflux init_data io.tstamp (fullMessage io.msg_len io.old formatted))
    io.write⟩
  rw [Library.daapLogWrite, hcalled, hdata]
  rfl

end Lines

section Calls

variable {l : Library} {zero : Bool}

theorem caller_ready (hready : Ready zero l) (formatted : Text) (io : LogIo) :
    Ready zero (Call.perform.log l formatted io).1 ∧
      Unmarked (Call.perform.log l formatted io).2.1 := by
  obtain ⟨tls, htls⟩ := daapLogWrite_frame l .caller formatted io
  obtain ⟨init_data, rest, -, hevents, hrest⟩ := daapLogWrite_of_ready hready .caller formatted io
  refine ⟨ready_of_tls htls hready, ?_⟩
  rw [Call.perform.log, hevents]
  exact unmarked_cons rfl rfl hrest

theorem perform_ready (hready : Ready zero l) {c : Call}
    (hc : (∃ args, c = .daapInit args) ∨ Call.Logs c ∨ ∃ rank, c = .daapSetRank rank) :
    Ready zero (c.perform l).1 ∧ Unmarked (c.perform l).2.1 := by
  cases c with
  | daapInit args =>
      rw [Call.perform, daapInit_of_called hready.1]
      exact ⟨hready, unmarked_nil⟩
  | daapFinalize env io => simp [Call.Logs] at hc
  | daapSetRank rank => exact ⟨hready, unmarked_nil⟩
  | daapLogRawWrite formatted io =>
      obtain ⟨tls, htls⟩ := daapLogRawWrite_frame l formatted io
      refine ⟨ready_of_tls htls hready, ?_⟩
      rw [Call.perform, Library.daapLogRawWrite, hready.1]
      exact unmarked_cons rfl rfl (unmarked_transmit l _ _)
  | daapLogWrite formatted io => exact caller_ready hready formatted io
  | daapLogHeartbeat io => exact caller_ready hready heartbeatText io
  | daapLogJobStart io => exact caller_ready hready jobstartText io
  | daapLogJobDuration cur_time io => exact caller_ready hready (l.jobdurationText cur_time) io
  | daapLogJobEnd io => exact caller_ready hready jobendText io

theorem run_ready (hready : Ready zero l) {calls : List Call}
    (hcalls : ∀ c ∈ calls,
      (∃ args, c = .daapInit args) ∨ Call.Logs c ∨ ∃ rank, c = .daapSetRank rank)
    {r : Library × List Event} (h : run step l calls = some r) :
    Ready zero r.1 ∧ Unmarked r.2 := by
  induction calls generalizing l r with
  | nil =>
      obtain rfl := Option.some.inj h
      exact ⟨hready, unmarked_nil⟩
  | cons c rest ih =>
      obtain ⟨hc, hrest⟩ := List.forall_mem_cons.mp hcalls
      obtain ⟨first, hfirst, h⟩ := Option.bind_eq_some_iff.mp h
      obtain ⟨later, hlater, rfl⟩ := Option.map_eq_some_iff.mp h
      obtain ⟨-, rfl⟩ := step_eq_some_iff.mp hfirst
      obtain ⟨hready', hevents⟩ := perform_ready hready hc
      obtain ⟨hlast, hback⟩ := ih hready' hrest hlater
      exact ⟨hlast, unmarked_append hevents hback⟩

end Calls

section Initialising

variable {l : Library} {args : InitArgs} {rank : Nat}

theorem decimal_eq_zero_iff (rank : Nat) : decimal rank = ['0'] ↔ rank = 0 := by
  have hzero : decimal ((0 : Nat) : Int) = ['0'] := by decide
  rw [← hzero, decimal_injective.eq_iff]
  exact Int.natCast_inj

/-- The line of the first `daapInit` of the process with rank 0. -/
def StartsWith (args : InitArgs) (events : List Event) : Prop :=
  ∃ init_data rest,
    events = .influx .jobStart init_data args.io.tstamp
      (fullMessage args.io.msg_len args.io.old jobstartText) :: rest ∧
      init_data.mpi_rank = 0 ∧ Unmarked rest

theorem init_data_mpi_rank {init_data : daap_init_t} (h : l.init_data = some init_data) :
    init_data.mpi_rank = l.mpi_rank := by
  rw [Library.init_data] at h
  split at h
  · rw [← Option.some.inj h]
  · exact absurd h.symm (Option.some_ne_none init_data)

theorem finishInit_marks {names : Names} (hholds : Holds l names)
    (hzero : l.daapRank_zero = false) (hrank : args.env.rank = some (decimal rank))
    (hauto : args.env.automatic = true) :
    Ready (rank = 0) (l.finishInit args).1 ∧
      (rank = 0 → StartsWith args (l.finishInit args).2.1) ∧
      (rank ≠ 0 → (l.finishInit args).2.1 = []) := by
  have hread : { l with daapInit_called := true }.readRank args.env =
      { l with
        daapInit_called := true, daapRank_zero := decide (rank = 0),
        mpi_rank := atoi (decimal rank) } := by
    rw [Library.readRank, hrank]
    simp only [hzero, Bool.false_or, decimal_eq_zero_iff]
  have hready : Ready (decide (rank = 0)) { l with
      daapInit_called := true, daapRank_zero := decide (rank = 0),
      mpi_rank := atoi (decimal rank) } := ⟨rfl, rfl, names, hholds⟩
  rw [Library.finishInit, hread, hauto, Bool.and_true]
  by_cases h : rank = 0
  · obtain ⟨tls, htls⟩ := daapLogWrite_frame { l with
      daapInit_called := true, daapRank_zero := decide (rank = 0),
      mpi_rank := atoi (decimal rank) } .jobStart jobstartText args.io
    obtain ⟨init_data, rest, hdata, hevents, hrest⟩ :=
      daapLogWrite_of_ready hready .jobStart jobstartText args.io
    have hmpi : init_data.mpi_rank = 0 := by
      have hzero : atoi (decimal ((0 : Nat) : Int)) = 0 := by decide
      rw [init_data_mpi_rank hdata, h]
      exact hzero
    rw [if_pos (decide_eq_true h)]
    exact ⟨ready_of_tls htls hready, fun _ => ⟨init_data, rest, hevents, hmpi, hrest⟩,
      fun hne => absurd h hne⟩
  · rw [if_neg (by simpa using h)]
    exact ⟨hready, fun hzero => absurd hzero h, fun _ => rfl⟩

theorem daapInit_of_success (hcalled : l.daapInit_called = false)
    (hret : (l.daapInit args).2.2 = .returns DAAP_SUCCESS) :
    ∃ name tls, l.daapInit args = { l.populate args name with tls := tls }.finishInit args := by
  cases hname : args.hostname with
  | error error =>
      rw [daapInit_of_error hcalled hname] at hret
      cases error <;> exact absurd (Ending.returns.inj hret) (by decide)
  | ok name =>
      rw [daapInit_of_ok hcalled hname] at hret ⊢
      rcases initTransport_cases (l.populate args name) args with
        ⟨-, hinit⟩ | ⟨value, -, hinit⟩ | hinit
      · exact ⟨name, l.tls, hinit⟩
      · exact ⟨name, _, hinit⟩
      · rw [hinit] at hret
        exact absurd hret nofun

end Initialising

section Finalising

variable {l : Library} {zero : Bool} {env : Environment} {io : LogIo}

/-- Behind the message about the end of the job `daapFinalize` writes no line. -/
theorem countP_daapFinalize (kind : Event → Bool) (htls : ∀ e, kind (.tls e) = false)
    (hrelease : ∀ str, kind (.release str) = false) :
    (l.daapFinalize env io).2.1.countP kind = (l.finalMessage env io).2.1.countP kind := by
  rw [Library.daapFinalize, countP_andThen, Library.closeTransport, countP_andThen]
  · intro ret_val event hevent
    obtain ⟨e, -, rfl⟩ := List.mem_map.mp hevent
    exact htls e
  · intro ret_val event hevent
    obtain ⟨str, -, rfl⟩ := List.mem_map.mp hevent
    exact hrelease str

theorem daapFinalize_marks (hready : Ready true l) (hauto : env.automatic = true) (io : LogIo) :
    (l.daapFinalize env io).2.1.countP isStart = 0 ∧
      (l.daapFinalize env io).2.1.countP isEnd = 1 ∧
      ∃ init_data, .influx .jobEnd init_data io.tstamp
        (fullMessage io.msg_len io.old jobendText) ∈ (l.daapFinalize env io).2.1 := by
  obtain ⟨init_data, rest, -, hevents, hrest⟩ :=
    daapLogWrite_of_ready hready .jobEnd jobendText io
  have hmessage : (l.finalMessage env io).2.1 =
      .influx .jobEnd init_data io.tstamp (fullMessage io.msg_len io.old jobendText) :: rest := by
    rw [Library.finalMessage, hready.2.1, hauto]
    exact hevents
  refine ⟨?_, ?_, init_data, mem_andThen_of_first (mem_andThen_of_first ?_)⟩
  · rw [countP_daapFinalize isStart (fun _ => rfl) (fun _ => rfl), hmessage]
    exact hrest.1
  · rw [countP_daapFinalize isEnd (fun _ => rfl) (fun _ => rfl), hmessage, List.countP_cons,
      hrest.2]
    rfl
  · rw [hmessage]
    exact List.mem_cons_self

theorem daapFinalize_unmarked (hready : Ready false l) : Unmarked (l.daapFinalize env io).2.1 := by
  have hmessage : (l.finalMessage env io).2.1 = [] := by
    rw [Library.finalMessage, hready.2.1]
    rfl
  rw [Unmarked, countP_daapFinalize isStart (fun _ => rfl) (fun _ => rfl),
    countP_daapFinalize isEnd (fun _ => rfl) (fun _ => rfl), hmessage]
  exact unmarked_nil

end Finalising

section Processes

variable {p : Process} {rank : Nat} {events : List Event}

theorem events_of_launched (h : Launched rank p) (hevents : p.events = some events) :
    ∃ l first later, Ready (rank = 0) l ∧ events = first ++ later ++ (l.daapFinalize p.env p.io).2.1 ∧
      (rank = 0 → StartsWith p.first first) ∧ (rank ≠ 0 → first = []) ∧ Unmarked later := by
  obtain ⟨r, hrun, rfl⟩ := Option.map_eq_some_iff.mp hevents
  obtain ⟨start, hstart, hrun⟩ := Option.bind_eq_some_iff.mp hrun
  obtain ⟨back, hback, rfl⟩ := Option.map_eq_some_iff.mp hrun
  have hsucceeds := h.succeeds [] (.daapInit p.first) _ rfl ({}, []) rfl p.first rfl
  obtain ⟨ret, hret, hvalue⟩ := Ending.map_eq_returns_iff.mp hsucceeds
  obtain rfl := Option.some.inj hvalue
  obtain ⟨-, rfl⟩ := step_eq_some_iff.mp hstart
  obtain ⟨name, tls, hinit⟩ := daapInit_of_success (l := {}) rfl hret
  obtain ⟨hready, hzero, hpositive⟩ := finishInit_marks
    (holds_populate {} p.first name tls) rfl
    (h.rank p.first.env (by simp [Process.environments]))
    (h.automatic p.first.env (by simp [Process.environments]))
  rw [← hinit] at hready hzero hpositive
  have hcalls : ∀ c ∈ p.more.map Call.daapInit ++ p.later,
      (∃ args, c = .daapInit args) ∨ Call.Logs c ∨ ∃ rank, c = .daapSetRank rank := by
    intro c hc
    rcases List.mem_append.mp hc with hc | hc
    · obtain ⟨args, -, rfl⟩ := List.mem_map.mp hc
      exact .inl ⟨args, rfl⟩
    · exact .inr (h.later c hc)
  obtain ⟨hlast, hlater⟩ := run_ready hready hcalls hback
  exact ⟨back.1, _, back.2, hlast, rfl, hzero, hpositive, hlater⟩

theorem marksJob_of_rank_zero (h : Launched 0 p) (hevents : p.events = some events) :
    MarksJob p events := by
  obtain ⟨l, first, later, hready, rfl, hstart, -, hlater⟩ := events_of_launched h hevents
  obtain ⟨init_data, rest, rfl, hmpi, hrest⟩ := hstart rfl
  obtain ⟨hnone, hone, init_data', hend⟩ := daapFinalize_marks hready
    (h.automatic p.env List.mem_cons_self) p.io
  refine ⟨⟨init_data, rest ++ later ++ (l.daapFinalize p.env p.io).2.1, by simp, hmpi, ?_⟩,
    ⟨init_data', List.mem_append_right _ hend⟩, ?_⟩
  · rw [List.countP_append, hnone, (unmarked_append hrest hlater).1]
  · rw [List.countP_append, hone, List.countP_append, List.countP_cons, hrest.2, hlater.2]
    rfl

theorem unmarked_of_rank_pos (hrank : rank ≠ 0) (h : Launched rank p)
    (hevents : p.events = some events) : Unmarked events := by
  obtain ⟨l, first, later, hready, rfl, -, hfirst, hlater⟩ := events_of_launched h hevents
  rw [decide_eq_false hrank] at hready
  rw [hfirst hrank]
  exact unmarked_append (unmarked_append unmarked_nil hlater) (daapFinalize_unmarked hready)

end Processes

/-- In a job of `n` processes one of them, that of rank 0, writes one automatic start, in
front of all its other lines, and one automatic end; the others write none. -/
theorem exists_marksJob {n : Nat} (hn : 0 < n) (rank : Fin n → Nat)
    (hinjective : Function.Injective rank) (hlt : ∀ i, rank i < n) (p : Fin n → Process)
    (hp : ∀ i, Launched (rank i) (p i)) (events : Fin n → List Event)
    (hevents : ∀ i, (p i).events = some (events i)) :
    ∃ i, rank i = 0 ∧ MarksJob (p i) (events i) ∧ ∀ j, j ≠ i → Unmarked (events j) := by
  have hsurjective : Function.Surjective fun i => (⟨rank i, hlt i⟩ : Fin n) :=
    Finite.injective_iff_surjective.mp fun i j hij => hinjective (Fin.mk.inj_iff.mp hij)
  obtain ⟨i, hi⟩ := hsurjective ⟨0, hn⟩
  have hzero : rank i = 0 := Fin.mk.inj_iff.mp hi
  refine ⟨i, hzero, marksJob_of_rank_zero (hzero ▸ hp i) (hevents i), fun j hj => ?_⟩
  refine unmarked_of_rank_pos (fun h => hj ?_) (hp j) (hevents j)
  exact hinjective (h.trans hzero.symm)

def pairEnv (rank : Nat) : Environment := { serialEnv with PMI_RANK := some (decimal rank) }

/-- A process that initialises with syslog, sends a heartbeat and finalises. -/
def pairProcess (rank : Nat) : Process where
  first := { syslogInit with env := pairEnv rank }
  more := []
  later := [.daapLogHeartbeat promptIo]
  env := pairEnv rank
  io := promptIo

theorem launched_pair (i : Fin 2) : Launched i (pairProcess i) := by
  refine ⟨fun env henv => ?_, fun env henv => ?_, fun c hc => .inl ?_, throughout_cons.mpr ⟨?_, ?_⟩⟩
  · rcases List.mem_cons.mp henv with rfl | henv
    · rfl
    · rw [List.mem_singleton.mp henv]
      rfl
  · rcases List.mem_cons.mp henv with rfl | henv
    · rfl
    · rw [List.mem_singleton.mp henv]
      rfl
  · rw [List.mem_singleton.mp hc]
    trivial
  · intro args hargs
    obtain rfl := Call.daapInit.inj hargs
    fin_cases i <;> rfl
  · intro r hr
    refine throughout_cons.mpr ⟨?_, fun _ _ => throughout_nil⟩
    intro args hargs
    simp at hargs

theorem exists_marksJob_pair :
    ∃ i : Fin 2, (i : Nat) = 0 ∧
      MarksJob (pairProcess i) ((pairProcess i).events.getD []) ∧
        ∀ j : Fin 2, j ≠ i → Unmarked ((pairProcess j).events.getD []) :=
  exists_marksJob (by decide) (fun i => i) Fin.val_injective (fun i => i.isLt)
    (fun i => pairProcess i) launched_pair _ (by
      intro i
      fin_cases i <;> rfl)

end DaapLog.JobMarkers

import DaapLog.Runs
import DaapLog.TlsTransport

/-!
The public calls of the library on its globals. The environment, the clock and the
results of all system calls are arguments of a call; what it does outside of the
globals is a list of events.
-/

namespace DaapLog.LibraryCalls

open DaapLog.CStrings
open DaapLog.BuildInflux (daap_init_t Transport DAAP_SUCCESS DAAP_ERROR fullMessage
  daapBuildInflux daapBuildRawInflux)
open DaapLog.TlsTransport
open DaapLog.TracedCalls

/-- A string of `init_data`: a null pointer, a string, or a pointer to freed memory. -/
inductive Str
  | unset
  | live (text : Text)
  | released
  deriving DecidableEq, Repr

/-- `free`; the pointer keeps its value. -/
def Str.free : Str → Str
  | .unset => .unset
  | .live _ => .released
  | .released => .released

/-- The globals; the fields of `init_data` that no call reads are left out. -/
structure Library where
  daapInit_called : Bool := false
  daapRank_zero : Bool := false
  appname : Str := .unset
  hostname : Str := .unset
  cluster_name : Str := .unset
  mpi_rank : Int := 0
  level : Int := 0
  transport_type : Transport := .NONE
  start_time : Nat := 0
  tls : Tls := {}

/-- Whether a line is the job start of `daapInit`, the job end of `daapFinalize` or one
for a caller. -/
inductive Origin
  | jobStart
  | jobEnd
  | caller
  deriving DecidableEq, Repr

inductive Event
  | tls (event : TlsEvent)
  | release (str : Str)
  | syslog (level : Int) (line : Text)
  | influx (origin : Origin) (init_data : daap_init_t) (tstamp : Int) (full_message : Text)
  | rawInflux (full_message : Text)

structure Environment where
  SLURMD_NODENAME : Option Text
  SLURM_CLUSTER_NAME : Option Text
  DAAP_DECOUPLE : Option Text
  OMPI_COMM_WORLD_RANK : Option Text
  PMI_RANK : Option Text
  PMIX_RANK : Option Text

def Environment.rank (env : Environment) : Option Text :=
  (env.OMPI_COMM_WORLD_RANK.or env.PMI_RANK).or env.PMIX_RANK

/-- Start and end of the job are logged by the library. -/
def Environment.automatic (env : Environment) : Bool :=
  env.DAAP_DECOUPLE = none || env.DAAP_DECOUPLE = some ['0']

/-- What a log call gets from outside: the clock, the result of `vfprintf`, the content
of the uninitialised buffer and the results of the transport. -/
structure LogIo where
  tstamp : Int
  msg_len : Int
  old : Text
  write : WriteIo

inductive HostnameError
  | DAAP_ERROR
  | DAAP_ERROR_OUT_OF_MEMORY
  | DAAP_ERROR_IN_ERRNO
  deriving DecidableEq, Repr

def HostnameError.code : HostnameError → Int
  | DAAP_ERROR => -1
  | DAAP_ERROR_OUT_OF_MEMORY => 1
  | DAAP_ERROR_IN_ERRNO => 2

structure InitArgs where
  app_name : Text
  transport_type : Transport
  env : Environment
  daap_gethostname : Except HostnameError Text
  time : Nat
  setup : Setup
  io : LogIo

def InitArgs.hostname (args : InitArgs) : Except HostnameError Text :=
  match args.env.SLURMD_NODENAME with
  | some name => .ok name
  | none => args.daap_gethostname

def InitArgs.cluster_name (args : InitArgs) : Text := args.env.SLURM_CLUSTER_NAME.getD []

/-- The arguments of `%d` are read as `int`. -/
def toInt32 (x : Int) : Int := x.bmod (2 ^ 32)

def heartbeatText : Text := "__daap_heartbeat".toList

def jobstartText : Text := "__daap_jobstart".toList

def jobendText : Text := "__daap_jobend".toList

namespace Library

/-- `init_data` as the format of `daapBuildInflux` reads it. -/
def init_data (l : Library) : Option daap_init_t :=
  match l.appname, l.hostname, l.cluster_name with
  | .live appname, .live hostname, .live cluster_name =>
      some ⟨appname, hostname, cluster_name, l.mpi_rank, l.level, l.transport_type, l.start_time⟩
  | _, _, _ => none

/-- The end of both write functions: a line goes to the transport, whose result is
dropped. -/
def transmit (l : Library) (influx_str : Text) (io : WriteIo) :
    Traced Library Event Int :=
  match l.transport_type with
  | .NONE => (l, [], .returns DAAP_SUCCESS)
  | .SYSLOG => (l, [.syslog l.level influx_str], .returns DAAP_SUCCESS)
  | .TCP =>
      let r := daapTCPLogWrite io influx_str.length l.tls
      ({ l with tls := r.1 }, r.2.1.map .tls, r.2.2.map fun _ => DAAP_SUCCESS)

/-- Strings that are not there make the format undefined. -/
def daapLogWrite (l : Library) (origin : Origin) (formatted : Text) (io : LogIo) :
    Traced Library Event Int :=
  if !l.daapInit_called then (l, [], .returns DAAP_ERROR)
  else
    match l.init_data with
    | none => (l, [], .undefined)
    | some init_data =>
        let full_message := fullMessage io.msg_len io.old formatted
        let r := l.transmit (daapBuildInflux init_data io.tstamp full_message) io.write
        (r.1, .influx origin init_data io.tstamp full_message :: r.2.1, r.2.2)

def daapLogRawWrite (l : Library) (formatted : Text) (io : LogIo) :
    Traced Library Event Int :=
  if !l.daapInit_called then (l, [], .returns DAAP_ERROR)
  else
    let full_message := fullMessage io.msg_len io.old formatted
    let r := l.transmit (daapBuildRawInflux full_message) io.write
    (r.1, .rawInflux full_message :: r.2.1, r.2.2)

def jobdurationText (l : Library) (cur_time : Nat) : Text :=
  "__daap_jobduration: ".toList ++ decimal (toInt32 (cur_time - l.start_time))

/-- The rank from the environment; without one a run counts as serial unless it is
decoupled. -/
def readRank (l : Library) (env : Environment) : Library :=
  match env.rank with
  | some rank =>
      { l with daapRank_zero := l.daapRank_zero || rank = ['0'], mpi_rank := atoi rank }
  | none => { l with daapRank_zero := l.daapRank_zero || env.automatic }

/-- The end of `daapInit`, behind the set-up of the transport. -/
def finishInit (l : Library) (args : InitArgs) : Traced Library Event Int :=
  let l := { l with daapInit_called := true }.readRank args.env
  if l.daapRank_zero && args.env.automatic then l.daapLogWrite .jobStart jobstartText args.io
  else (l, [], .returns DAAP_SUCCESS)

/-- The result of the TLS set-up is dropped. -/
def initTransport (l : Library) (args : InitArgs) : Traced Library Event Int :=
  match args.transport_type with
  | .TCP =>
      match daapInitializeSSL args.setup l.tls with
      | (tls, .returns _) => { l with tls := tls }.finishInit args
      | (tls, _) => ({ l with tls := tls }, [], .undefined)
  | _ => l.finishInit args

/-- The part of `init_data` that is filled in front of the host name. -/
def startInit (l : Library) (args : InitArgs) : Library :=
  { l with
    appname := .live args.app_name
    transport_type := args.transport_type
    start_time := args.time
    mpi_rank := 0 }

/-- The strings of `init_data` with a host name. -/
def populate (l : Library) (args : InitArgs) (name : Text) : Library :=
  { l.startInit args with
    hostname := .live name
    cluster_name := .live args.cluster_name }

def daapInit (l : Library) (args : InitArgs) : Traced Library Event Int :=
  if l.daapInit_called then (l, [], .returns DAAP_SUCCESS)
  else
    match args.hostname with
    | .error error => (l.startInit args, [], .returns error.code)
    | .ok name => (l.populate args name).initTransport args

def freeStrings (l : Library) : Traced Library Event Unit :=
  let strings := [l.hostname, l.appname, l.cluster_name]
  ({ l with
      hostname := l.hostname.free
      appname := l.appname.free
      cluster_name := l.cluster_name.free },
    strings.map .release, if .released ∈ strings then .undefined else .returns ())

/-- The message of the last process about the end of the job; without it the result of
`daapFinalize` is indeterminate. -/
def finalMessage (l : Library) (env : Environment) (io : LogIo) :
    Traced Library Event (Option Int) :=
  if l.daapRank_zero && env.automatic then
    let r := l.daapLogWrite .jobEnd jobendText io
    (r.1, r.2.1, r.2.2.map some)
  else (l, [], .returns none)

def shutdownTransport (l : Library) : Traced Library Event Unit :=
  let r := daapShutdownSSL l.tls
  ({ l with tls := r.1 }, r.2.1.map .tls, r.2.2)

/-- The part of `daapFinalize` in front of the strings. -/
def closeTransport (l : Library) (env : Environment) (io : LogIo) :
    Traced Library Event (Option Int) :=
  andThen (l.finalMessage env io) fun l ret_val =>
    let r := l.shutdownTransport
    (r.1, r.2.1, r.2.2.map fun _ => ret_val)

/-- Nothing but the transport and the strings is undone. -/
def daapFinalize (l : Library) (env : Environment) (io : LogIo) :
    Traced Library Event (Option Int) :=
  andThen (l.closeTransport env io) fun l ret_val =>
    let r := l.freeStrings
    (r.1, r.2.1, r.2.2.map fun _ => ret_val)

def daapSetRank (l : Library) (rank : Int) : Library := { l with mpi_rank := rank }

end Library

inductive Call
  | daapInit (args : InitArgs)
  | daapFinalize (env : Environment) (io : LogIo)
  | daapSetRank (rank : Int)
  | daapLogWrite (formatted : Text) (io : LogIo)
  | daapLogRawWrite (formatted : Text) (io : LogIo)
  | daapLogHeartbeat (io : LogIo)
  | daapLogJobStart (io : LogIo)
  | daapLogJobDuration (cur_time : Nat) (io : LogIo)
  | daapLogJobEnd (io : LogIo)

/-- The globals behind a call, what it does and how it ends. -/
def Call.perform (l : Library) : Call → Traced Library Event (Option Int)
  | daapInit args => let r := l.daapInit args; (r.1, r.2.1, r.2.2.map some)
  | daapFinalize env io => l.daapFinalize env io
  | daapSetRank rank => (l.daapSetRank rank, [], .returns none)
  | daapLogWrite formatted io => log l formatted io
  | daapLogRawWrite formatted io =>
      let r := l.daapLogRawWrite formatted io
      (r.1, r.2.1, r.2.2.map some)
  | daapLogHeartbeat io => log l heartbeatText io
  | daapLogJobStart io => log l jobstartText io
  | daapLogJobDuration cur_time io => log l (l.jobdurationText cur_time) io
  | daapLogJobEnd io => log l jobendText io
where
  log (l : Library) (formatted : Text) (io : LogIo) :
      Traced Library Event (Option Int) :=
    let r := l.daapLogWrite .caller formatted io
    (r.1, r.2.1, r.2.2.map some)

def step (l : Library) (c : Call) : Option (Library × List Event) :=
  match c.perform l with
  | (l, events, .returns _) => some (l, events)
  | _ => none

theorem step_eq_some_iff {l : Library} {c : Call} {r : Library × List Event} :
    step l c = some r ↔
      (∃ ret, (c.perform l).2.2 = .returns ret) ∧ r = ((c.perform l).1, (c.perform l).2.1) := by
  rw [step]
  split
  · next state events ret h => simp [h, eq_comm]
  · next h =>
      refine iff_of_false nofun ?_
      rintro ⟨⟨ret, hret⟩, -⟩
      exact h (c.perform l).1 (c.perform l).2.1 ret (by rw [← hret])

theorem readRank_daapRank_zero (l : Library) (env : Environment) :
    (l.readRank env).daapRank_zero =
      (l.daapRank_zero || (env.rank.map fun rank => decide (rank = ['0'])).getD env.automatic) := by
  rw [Library.readRank]
  cases env.rank with
  | none => rfl
  | some rank => rfl

section Initialising

variable {l : Library} {args : InitArgs}

theorem daapInit_of_called (h : l.daapInit_called = true) (args : InitArgs) :
    l.daapInit args = (l, [], .returns DAAP_SUCCESS) := by
  rw [Library.daapInit, if_pos h]

theorem daapInit_of_error {error : HostnameError} (hcalled : l.daapInit_called = false)
    (h : args.hostname = .error error) :
    l.daapInit args = (l.startInit args, [], .returns error.code) := by
  rw [Library.daapInit, if_neg (by simp [hcalled]), h]

theorem daapInit_of_ok {name : Text} (hcalled : l.daapInit_called = false)
    (h : args.hostname = .ok name) :
    l.daapInit args = (l.populate args name).initTransport args := by
  rw [Library.daapInit, if_neg (by simp [hcalled]), h]

theorem initTransport_of_setup (htcp : args.transport_type = .TCP) {tls : Tls}
    {value : Option Int} (h : daapInitializeSSL args.setup l.tls = (tls, .returns value)) :
    l.initTransport args = { l with tls := tls }.finishInit args := by
  rw [Library.initTransport, htcp]
  simp only [h]

theorem initTransport_of_not_tcp (h : args.transport_type ≠ .TCP) :
    l.initTransport args = l.finishInit args := by
  rw [Library.initTransport]
  split
  · next htcp => exact absurd htcp h
  · rfl

theorem initTransport_of_stuck (htcp : args.transport_type = .TCP)
    (h : ∀ value, (daapInitializeSSL args.setup l.tls).2 ≠ .returns value) :
    l.initTransport args =
      ({ l with tls := (daapInitializeSSL args.setup l.tls).1 }, [], .undefined) := by
  rw [Library.initTransport, htcp]
  generalize daapInitializeSSL args.setup l.tls = r at h
  obtain ⟨tls, ending⟩ := r
  cases ending with
  | returns value => exact absurd rfl (h value)
  | exits status => rfl
  | undefined => rfl
  | running => rfl

theorem initTransport_cases (l : Library) (args : InitArgs) :
    (args.transport_type ≠ .TCP ∧ l.initTransport args = l.finishInit args) ∨
    (∃ value, daapInitializeSSL args.setup l.tls =
        ((daapInitializeSSL args.setup l.tls).1, .returns value) ∧
      l.initTransport args =
        { l with tls := (daapInitializeSSL args.setup l.tls).1 }.finishInit args) ∨
    l.initTransport args =
      ({ l with tls := (daapInitializeSSL args.setup l.tls).1 }, [], .undefined) := by
  rcases eq_or_ne args.transport_type .TCP with htcp | htcp
  · right
    cases hsetup : daapInitializeSSL args.setup l.tls with
    | mk tls ending =>
        cases ending with
        | returns value => exact .inl ⟨value, rfl, initTransport_of_setup htcp hsetup⟩
        | _ =>
            have hstuck := initTransport_of_stuck htcp (l := l) (by rw [hsetup]; exact fun _ => nofun)
            rw [hsetup] at hstuck
            exact .inr hstuck
  · exact .inl ⟨htcp, initTransport_of_not_tcp htcp⟩

end Initialising

section Frames

variable (l : Library)

theorem readRank_frame (env : Environment) :
    ∃ zero rank, l.readRank env = { l with daapRank_zero := zero, mpi_rank := rank } := by
  rw [Library.readRank]
  split
  · exact ⟨_, _, rfl⟩
  · exact ⟨_, l.mpi_rank, rfl⟩

theorem transmit_frame (influx_str : Text) (io : WriteIo) :
    ∃ tls, (l.transmit influx_str io).1 = { l with tls := tls } := by
  rw [Library.transmit]
  split
  · exact ⟨l.tls, rfl⟩
  · exact ⟨l.tls, rfl⟩
  · exact ⟨_, rfl⟩

theorem transmit_of_tcp (h : l.transport_type = .TCP) (influx_str : Text) (io : WriteIo) :
    l.transmit influx_str io =
      ({ l with tls := (daapTCPLogWrite io influx_str.length l.tls).1 },
        (daapTCPLogWrite io influx_str.length l.tls).2.1.map .tls,
        (daapTCPLogWrite io influx_str.length l.tls).2.2.map fun _ => DAAP_SUCCESS) := by
  rw [Library.transmit]
  split
  · next hnone => exact absurd (hnone.symm.trans h) nofun
  · next hsyslog => exact absurd (hsyslog.symm.trans h) nofun
  · rfl

theorem transmit_of_not_tcp (h : l.transport_type ≠ .TCP) (influx_str : Text) (io : WriteIo) :
    (l.transmit influx_str io).1 = l ∧ (∀ e, .tls e ∉ (l.transmit influx_str io).2.1) ∧
      (l.transmit influx_str io).2.2 = .returns DAAP_SUCCESS := by
  rw [Library.transmit]
  split
  · exact ⟨rfl, by simp, rfl⟩
  · exact ⟨rfl, by simp, rfl⟩
  · next htcp => exact absurd htcp h

theorem transmit_events {influx_str : Text} {io : WriteIo} {event : Event}
    (h : event ∈ (l.transmit influx_str io).2.1) :
    (∃ e, event = .tls e) ∨ event = .syslog l.level influx_str := by
  rw [Library.transmit] at h
  split at h
  · exact absurd h List.not_mem_nil
  · exact .inr (List.mem_singleton.mp h)
  · obtain ⟨e, -, rfl⟩ := List.mem_map.mp h
    exact .inl ⟨e, rfl⟩

theorem daapLogWrite_frame (origin : Origin) (formatted : Text) (io : LogIo) :
    ∃ tls, (l.daapLogWrite origin formatted io).1 = { l with tls := tls } := by
  rw [Library.daapLogWrite]
  split
  · exact ⟨l.tls, rfl⟩
  · split
    · exact ⟨l.tls, rfl⟩
    · exact transmit_frame l _ _

theorem daapLogRawWrite_frame (formatted : Text) (io : LogIo) :
    ∃ tls, (l.daapLogRawWrite formatted io).1 = { l with tls := tls } := by
  rw [Library.daapLogRawWrite]
  split
  · exact ⟨l.tls, rfl⟩
  · exact transmit_frame l _ _

theorem finalMessage_frame (env : Environment) (io : LogIo) :
    ∃ tls, (l.finalMessage env io).1 = { l with tls := tls } := by
  rw [Library.finalMessage]
  split
  · exact daapLogWrite_frame l _ _ _
  · exact ⟨l.tls, rfl⟩

theorem closeTransport_frame (env : Environment) (io : LogIo) :
    ∃ tls, (l.closeTransport env io).1 = { l with tls := tls } := by
  obtain ⟨tls, htls⟩ := finalMessage_frame l env io
  refine andThen_state (P := fun l' => ∃ tls, l' = { l with tls := tls }) ⟨tls, htls⟩ ?_
  intro ret_val _
  simp only [Library.shutdownTransport, htls]
  exact ⟨_, rfl⟩

end Frames

/-- A serial run on a node of a cluster. -/
def serialEnv : Environment where
  SLURMD_NODENAME := some "gr0959".toList
  SLURM_CLUSTER_NAME := some "grizzly".toList
  DAAP_DECOUPLE := none
  OMPI_COMM_WORLD_RANK := none
  PMI_RANK := none
  PMIX_RANK := none

def promptIo : LogIo where
  tstamp := 1635185068000
  msg_len := 16
  old := []
  write := promptWrite

/-- The certificates are there and OpenSSL gives a context. -/
def tcpInit : InitArgs where
  app_name := "flag".toList
  transport_type := .TCP
  env := serialEnv
  daap_gethostname := .ok "gr0959".toList
  time := 1635185068
  setup := ⟨some "/etc/daap".toList, fun _ => true, true⟩
  io := promptIo

def syslogInit : InitArgs := { tcpInit with transport_type := .SYSLOG }

end DaapLog.LibraryCalls

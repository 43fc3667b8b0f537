import DaapLog.CriticalSections
import DaapLog.LibraryCalls

/-!
The public calls step by step, for threads of one process: what each step reads and
writes of the globals, and the mutexes around it. Steps of different threads follow one
another in some order.
-/

namespace DaapLog.LibraryThreads

open DaapLog.CStrings
open DaapLog.BuildInflux (DAAP_SUCCESS DAAP_ERROR DAAP_MAX_MSG_LEN fullMessage daapBuildInflux
  daapBuildRawInflux)
open DaapLog.LibraryCalls
open DaapLog.TcpLogWrite
open DaapLog.Threads
open DaapLog.TlsTransport

/-- `print_mutex` is static in a header, so each file has its own. -/
inductive Mutex
  | init_mutex
  | finalize_mutex
  | write_mutex
  | daap_log_print_mutex
  | daap_tcp_print_mutex
  deriving DecidableEq, Repr

/-- A call of `daapLogWrite`, or of `daapLogRawWrite` when it is raw. -/
structure Message where
  origin : Origin
  raw : Bool
  formatted : Text
  io : LogIo

/-- The strings of `init_data` in the order of `daapFinalize`. -/
inductive StringField
  | hostname
  | appname
  | cluster_name
  deriving DecidableEq, Repr

/-- Where `daapShutdownSSL` is called. -/
inductive Shutdown
  | connect (m : Message)
  | finalize (ret_val : Option Int)

/-- The control points, named after what comes next. -/
inductive Point
  | call (c : Call)
  | log (m : Message)
  | warn (m : Message)
  | build (m : Message)
  | transmit (m : Message) (line : Event) (influx_str : Text)
  | socket (m : Message) (line : Event) (buf_size : Nat)
  | connect (m : Message) (buf_size : Nat)
  | SSL_new (m : Message) (buf_size : Nat)
  | SSL_connect (m : Message) (buf_size : Nat)
  | SSL_write (m : Message) (buf_size : Nat) (loop : WriteLoop)
  | exit (m : Message)
  | close (m : Message)
  | unlockWrite (m : Message)
  | SSL_CTX_free (at_ : Shutdown)
  | SSL_free (at_ : Shutdown)
  | testCalled (args : InitArgs)
  | nameHost (args : InitArgs)
  | nameCluster (args : InitArgs)
  | setUp (args : InitArgs)
  | reportSetUp (args : InitArgs)
  | reported (args : InitArgs)
  | setCalled (args : InitArgs)
  | unlockInit (args : InitArgs)
  | leaveInit (ret_val : Int)
  | rankZero (args : InitArgs)
  | mpiRank (args : InitArgs)
  | jobStart (args : InitArgs)
  | jobEnd (env : Environment) (io : LogIo)
  | free (fields : List StringField) (ret_val : Option Int)
  | unlockFinalize (ret_val : Option Int)
  | done (ret_val : Option Int)

/-- The set-up gets as far as `SSL_CTX_new`, which gives no context. -/
def reportsContext (setup : Setup) : Bool :=
  match setup.DAAP_CERTS with
  | none => false
  | some cert_dir =>
      cert_dir.length + SSL_CLIENT_KEY.length < PATH_MAX &&
        cert_dir.length + SSL_CLIENT_CERT.length < PATH_MAX &&
        setup.access (cert_dir ++ "/" ++ SSL_CLIENT_CERT) &&
        setup.access (cert_dir ++ "/" ++ SSL_CLIENT_KEY) && !setup.SSL_CTX_new

def string (l : Library) : StringField → Str
  | .hostname => l.hostname
  | .appname => l.appname
  | .cluster_name => l.cluster_name

def freeString (l : Library) : StringField → Library
  | .hostname => { l with hostname := l.hostname.free }
  | .appname => { l with appname := l.appname.free }
  | .cluster_name => { l with cluster_name := l.cluster_name.free }

def raiseCalled (l : Library) : Library := { l with daapInit_called := true }

/-- The two assignments of `daapInit` from the rank in the environment. -/
def readZero (l : Library) (env : Environment) : Library :=
  { l with daapRank_zero := (l.readRank env).daapRank_zero }

def readMpiRank (l : Library) (env : Environment) : Library :=
  { l with mpi_rank := (l.readRank env).mpi_rank }

/-- `CHK_SSL` exits on a result of `-1`, another negative one leaves the loop. -/
def Point.afterWrite (m : Message) (buf_size : Nat) (loop : WriteLoop) : Point :=
  match loop.control with
  | .writing => .SSL_write m buf_size loop
  | .left => .close m
  | .exited => .exit m

/-- Behind a log call: `daapFinalize` goes on, the other callers return its result. -/
def afterLog (ret_val : Int) : Origin → Point
  | .jobEnd => .SSL_CTX_free (.finalize (some ret_val))
  | _ => .done (some ret_val)

def Shutdown.next : Shutdown → Point
  | .connect m => .unlockWrite m
  | .finalize ret_val => .free [.hostname, .appname, .cluster_name] ret_val

def enterCall (l : Library) : Call → Action Mutex Library Event Point (Option Int)
  | .daapInit args => .lock .init_mutex (.testCalled args)
  | .daapFinalize env io => .lock .finalize_mutex (.jobEnd env io)
  | .daapSetRank rank => .acts (l.daapSetRank rank) [] (.done none)
  | .daapLogWrite formatted io => .goes (.log ⟨.caller, false, formatted, io⟩)
  | .daapLogRawWrite formatted io => .goes (.log ⟨.caller, true, formatted, io⟩)
  | .daapLogHeartbeat io => .goes (.log ⟨.caller, false, heartbeatText, io⟩)
  | .daapLogJobStart io => .goes (.log ⟨.caller, false, jobstartText, io⟩)
  | .daapLogJobDuration cur_time io =>
      .goes (.log ⟨.caller, false, l.jobdurationText cur_time, io⟩)
  | .daapLogJobEnd io => .goes (.log ⟨.caller, false, jobendText, io⟩)

/-- The line of a message with the record of it. -/
def buildLine (l : Library) (m : Message) : Option (Event × Text) :=
  let full_message := fullMessage m.io.msg_len m.io.old m.formatted
  if m.raw then some (.rawInflux full_message, daapBuildRawInflux full_message)
  else
    l.init_data.map fun init_data =>
      (.influx m.origin init_data m.io.tstamp full_message,
        daapBuildInflux init_data m.io.tstamp full_message)

/-- What a thread does next. The record of a line stands where the line goes out. -/
def code (l : Library) : Point → Action Mutex Library Event Point (Option Int)
  | .call c => enterCall l c
  | .log m =>
      if !l.daapInit_called then .goes (afterLog DAAP_ERROR m.origin)
      else if m.io.msg_len > DAAP_MAX_MSG_LEN then .lock .daap_log_print_mutex (.warn m)
      else .goes (.build m)
  | .warn m => .unlock .daap_log_print_mutex (.build m)
  | .build m =>
      match buildLine l m with
      | none => .undefined
      | some (line, influx_str) => .goes (.transmit m line influx_str)
  | .transmit m line influx_str =>
      match l.transport_type with
      | .NONE => .acts l [line] (afterLog DAAP_SUCCESS m.origin)
      | .SYSLOG => .acts l [line, .syslog l.level influx_str] (afterLog DAAP_SUCCESS m.origin)
      | .TCP => .lock .write_mutex (.socket m line influx_str.length)
  | .socket m line buf_size =>
      if m.io.write.socket < 0 then .acts l [line] (.unlockWrite m)
      else .acts { l with tls := l.tls.openSocket } [line] (.connect m buf_size)
  | .connect m buf_size =>
      if m.io.write.connect ≠ 0 then .goes (.unlockWrite m) else .goes (.SSL_new m buf_size)
  | .SSL_new m buf_size =>
      if l.tls.sslctx ≠ .live then .undefined
      else
        .acts { l with tls := l.tls.openConnection false } [.tls (.SSL_new .live)]
          (.SSL_connect m buf_size)
  | .SSL_connect m buf_size =>
      if m.io.write.SSL_connect < 0 then .goes (.SSL_CTX_free (.connect m))
      else
        .acts { l with tls := { l.tls with handshaken := m.io.write.SSL_connect = 1 } } []
          (.SSL_write m buf_size {})
  | .SSL_write m buf_size loop =>
      if loop.total_count = buf_size then .goes (.close m)
      else
        .acts l [.tls (.SSL_write l.tls.cSSL l.tls.handshaken)]
          (.afterWrite m buf_size (iteration m.io.write.SSL_write buf_size loop))
  | .exit _ => .exits 2
  | .close m => .acts { l with tls := l.tls.closeSocket } [] (.unlockWrite m)
  | .unlockWrite m => .unlock .write_mutex (afterLog DAAP_SUCCESS m.origin)
  | .SSL_CTX_free at_ =>
      match l.tls.sslctx with
      | .freed => .undefined
      | .null => .acts l [.tls (.SSL_CTX_free .null)] (.SSL_free at_)
      | .live =>
          .acts { l with tls := { l.tls with sslctx := .freed } } [.tls (.SSL_CTX_free .live)]
            (.SSL_free at_)
  | .SSL_free at_ =>
      match l.tls.cSSL with
      | .freed => .undefined
      | .null => .goes at_.next
      | .live =>
          .acts { l with tls := { l.tls with
              cSSL := .freed
              connections := l.tls.connections - 1 } } [.tls (.SSL_free .live)] at_.next
  | .testCalled args =>
      if l.daapInit_called then .goes (.leaveInit DAAP_SUCCESS)
      else .acts (l.startInit args) [] (.nameHost args)
  | .nameHost args =>
      match args.hostname with
      | .error error => .goes (.leaveInit error.code)
      | .ok name => .acts { l with hostname := .live name } [] (.nameCluster args)
  | .nameCluster args =>
      .acts { l with cluster_name := .live args.cluster_name } [] (.setUp args)
  | .setUp args =>
      match args.transport_type with
      | .TCP =>
          match daapInitializeSSL args.setup l.tls with
          | (tls, .returns _) =>
              .acts { l with tls := tls } []
                (if reportsContext args.setup then .reportSetUp args else .setCalled args)
          | _ => .undefined
      | _ => .goes (.setCalled args)
  | .reportSetUp args => .lock .daap_tcp_print_mutex (.reported args)
  | .reported args => .unlock .daap_tcp_print_mutex (.setCalled args)
  | .setCalled args => .acts (raiseCalled l) [] (.unlockInit args)
  | .unlockInit args => .unlock .init_mutex (.rankZero args)
  | .leaveInit ret_val => .unlock .init_mutex (.done (some ret_val))
  | .rankZero args => .acts (readZero l args.env) [] (.mpiRank args)
  | .mpiRank args => .acts (readMpiRank l args.env) [] (.jobStart args)
  | .jobStart args =>
      if l.daapRank_zero && args.env.automatic then
        .goes (.log ⟨.jobStart, false, jobstartText, args.io⟩)
      else .goes (.done (some DAAP_SUCCESS))
  | .jobEnd env io =>
      if l.daapRank_zero && env.automatic then .goes (.log ⟨.jobEnd, false, jobendText, io⟩)
      else .goes (.SSL_CTX_free (.finalize none))
  | .free [] ret_val => .goes (.unlockFinalize ret_val)
  | .free (field :: fields) ret_val =>
      if string l field = .released then .undefined
      else .acts (freeString l field) [.release (string l field)] (.free fields ret_val)
  | .unlockFinalize ret_val => .unlock .finalize_mutex (.done ret_val)
  | .done ret_val => .returns ret_val

end DaapLog.LibraryThreads

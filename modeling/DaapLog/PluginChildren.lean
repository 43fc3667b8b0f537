import DaapLog.PluginActions

/-!
The telegraf children of a record with `metrics`.
-/

namespace DaapLog.PluginChildren

open DaapLog.CStrings
open DaapLog.OrderedHash
open DaapLog.LinearPatterns
open DaapLog.RubyValues
open DaapLog.PluginActions

def names : List Text :=
  ["infiniband", "cpu", "mem", "temp", "daap", "snap_pavilion_parser",
    "pre_team_pavilion_parser", "pre_team_pavilion_hpl_parser"].map String.toList

def notSpace (c : Char) : Bool := c != ' '

/-- A child with the parts that are read of every child. -/
structure Child where
  name : Text
  tags : Record
  fields : Record
  jobinfo : Text
  host : Text
  timestamp : Val
  /-- Absent also for an array or a hash without any of the words that are looked for. -/
  message : Option Text

/-- `jobid=([^ ]+).*name=([^ ]+).*user=([^ ]+)` -/
def userPattern : Pattern :=
  litFold "jobid=".toList 0 ++ plus notSpace 1 ++ star inLine 0 ++ litFold "name=".toList 0 ++
    plus notSpace 2 ++ star inLine 0 ++ litFold "user=".toList 0 ++ plus notSpace 3

def ranksPattern : Pattern :=
  userPattern ++ star inLine 0 ++ litFold "ranks=".toList 0 ++ plus notSpace 4

def probsizePattern : Pattern :=
  ranksPattern ++ star inLine 0 ++ litFold "version=".toList 0 ++ plus notSpace 5 ++
    star inLine 0 ++ litFold "probsize=".toList 0 ++ plus notSpace 6

/-- The capture groups of a match under the names they are stored with. -/
def captures (pattern : Pattern) (keys : List Text) (text : Text) : Option (Hash Text Text) :=
  (firstMatch pattern text).map fun parts =>
    keys.zipIdx.map fun key => (key.1, capture pattern parts (key.2 + 1))

/-- The job of a `jobinfo` tag. The groups of a match are never empty, so that the
defaults for missing ones are not used. -/
def jobInfo (jobinfo : Text) : Hash Text Text :=
  [(userPattern, ["jobid", "job_name", "user"]),
    (ranksPattern, ["jobid", "job_name", "user", "ranks"]),
    (probsizePattern, ["jobid", "job_name", "user", "ranks", "version", "probsize"])].foldl
    (fun info p => ((captures p.1 (p.2.map String.toList) jobinfo).getD []).foldl
      (fun info e => set info e.1 e.2) info) []

/-- `jobid` and `job_name`; a child without them is skipped. -/
def jobOf (jobinfo : Text) : Option (Text × Text) :=
  match get (jobInfo jobinfo) "jobid".toList, get (jobInfo jobinfo) "job_name".toList with
  | some jobid, some job_name => some (jobid, job_name)
  | _, _ => none

def isFlag (jobinfo : Text) : Bool := strstr jobinfo "flag_perf_tests_".toList

/-- The words that a message of a child is searched for, to take it apart if it has one. -/
def wordsSought (jobinfo : Text) : List Text :=
  "__daap_jobduration:".toList ::
    ((if isFlag jobinfo then ["mesh".toList] else []) ++
      if isFlag jobinfo && (jobOf jobinfo).isSome then ["zones:".toList] else [])

def readMessage (jobinfo : Text) (fields : Record) : Option (Option Text) :=
  match get fields "message".toList with
  | none => some none
  | some (.str message) => some (some message)
  | some message =>
      if ∀ word ∈ wordsSought jobinfo, message.includes word = some false then some none
      else none

/-- The parts of a child, all of which are needed before the child has any effect. -/
def readChild (child : Record) (name : Text) : Option Child := do
  let tags ← (fetch child "tags".toList).asHash
  let jobinfo ← (fetch tags "jobinfo".toList).asText
  let host ← (fetch tags "host".toList).asText
  let fields ← (fetch child "fields".toList).asHash
  let message ← readMessage jobinfo fields
  return ⟨name, tags, fields, jobinfo, host, fetch child "timestamp".toList, message⟩

/-- A dot stands for any character of a line here. -/
def clean_host (host : Text) : Text := remove (cls inLine 0 ++ lit "localdomain".toList 0) host

/-- `__daap_jobduration: ([^ ]+)` -/
def durationPattern : Pattern := lit "__daap_jobduration: ".toList 0 ++ plus notSpace 1

/-- Ten words with spaces between them. -/
def meshPattern : Pattern :=
  plus notSpace 1 ++ (List.range 9).flatMap fun g => plus (· == ' ') 0 ++ plus notSpace (g + 2)

def meshKeys : List Text :=
  ["name", "handle", "geom", "numpe", "points", "edges", "faces", "sides", "zones",
    "bandwidth"].map String.toList

/-- `[ ]+zones:[ ]+([^ ]+)[ ]+numpes:[ ]+([^ ]+)[ ]+` -/
def zonesPattern : Pattern :=
  plus (· == ' ') 0 ++ lit "zones:".toList 0 ++ plus (· == ' ') 0 ++ plus notSpace 1 ++
    plus (· == ' ') 0 ++ lit "numpes:".toList 0 ++ plus (· == ' ') 0 ++ plus notSpace 2 ++
    plus (· == ' ') 0

def addTexts (entries : Hash Text Text) (new_rec : Record) : Record :=
  entries.foldl (fun r e => set r e.1 (.str e.2)) new_rec

namespace Child

variable (c : Child)

def metric (what : Text) : Val :=
  .str ((if isFlag c.jobinfo then "flag_daap_".toList else []) ++ what)

def isMessage (text : Text) : Bool := c.message = some text

def mentions (word : Text) : Bool := c.message.any fun message => strstr message word

def setMetric (what : Text) (new_rec : Record) : Record :=
  set new_rec "metric".toList (c.metric what)

def heartbeat (new_rec : Record) : Record :=
  if c.isMessage "__daap_heartbeat".toList then
    set (set (c.setMetric "heartbeat".toList new_rec) "type".toList (.str "heartbeat".toList))
      "val".toList (.num 1)
  else new_rec

def jobState (new_rec : Record) : Record :=
  let new_rec :=
    if c.isMessage "__daap_jobstart".toList then
      set (c.setMetric "job_state".toList new_rec) "state".toList (.str "start".toList)
    else new_rec
  if c.isMessage "__daap_jobend".toList then
    set (c.setMetric "job_state".toList new_rec) "state".toList (.str "end".toList)
  else new_rec

def jobDuration (new_rec : Record) : Record :=
  if c.mentions "__daap_jobduration:".toList then
    let new_rec := c.setMetric "job_duration".toList new_rec
    match c.message.bind (captures durationPattern ["duration".toList]) with
    | none => new_rec
    | some found =>
        found.foldl (fun r e => set r e.1 (.num (RubyStrings.to_i e.2))) new_rec
  else new_rec

def isMesh : Bool := c.mentions "mesh".toList && isFlag c.jobinfo

def mesh : Option (Hash Text Text) :=
  if c.isMesh then c.message.bind (captures meshPattern meshKeys) else none

def meshInfo (new_rec : Record) : Record :=
  if c.isMesh then addTexts (c.mesh.getD []) (c.setMetric "mesh_info".toList new_rec)
  else new_rec

/-- The match of a mesh message also assigns `name`. -/
def finalName : Text := (c.mesh.bind fun found => get found "name".toList).getD c.name

def common (new_rec : Record) : Record :=
  set (set new_rec "host".toList (.str (clean_host c.host))) "timestamp".toList c.timestamp

def mpirank (new_rec : Record) : Record :=
  if hasKey c.tags "mpirank".toList then
    set new_rec "mpirank".toList (fetch c.tags "mpirank".toList)
  else new_rec

def isZones : Bool := c.mentions "zones:".toList && isFlag c.jobinfo

def zones (new_rec : Record) : Record :=
  if c.isZones then
    addTexts ((c.message.bind (captures zonesPattern ["zones".toList, "numpes".toList])).getD [])
      (c.setMetric "zones".toList new_rec)
  else new_rec

def copyTags (items : List Text) (new_rec : Record) : Record :=
  items.foldl (fun r item => set r item (fetch c.tags item)) new_rec

def preTeam (new_rec : Record) : Record :=
  if c.finalName = "pre_team_pavilion_parser".toList then
    c.copyTags (["job_cpu_total", "job_duration", "job_ended", "job_id", "job_max_mem",
      "job_name", "job_nodes", "job_result", "job_started", "job_user", "sys_name"].map
      String.toList) (set new_rec "metric".toList (.str "pre_team".toList))
  else if c.finalName = "pre_team_pavilion_hpl_parser".toList then
    c.copyTags (["cpumode", "cpuspeed", "gflops", "job_id", "sys_name", "valalign", "valbcast",
      "valdepth", "valequil", "vall1", "valn", "valnb", "valnbmin", "valndiv", "valp", "valpfact",
      "valpmap", "valq", "valrfact", "valswap", "valu", "node"].map String.toList)
      (set new_rec "metric".toList (.str "pre_team_hpl".toList))
  else new_rec

/-- The record of a child before the part that depends on its name. What is looked up
for the first rank of a flag test is not used and left out. -/
def newRec : Record :=
  let new_rec := c.jobDuration (c.jobState (c.heartbeat []))
  let new_rec := c.common (c.meshInfo new_rec)
  let new_rec := addTexts (jobInfo c.jobinfo) new_rec
  c.preTeam (c.zones (c.mpirank new_rec))

/-- One record for each field of a list. -/
def expand (what : Text) (items : List Text) (dup : Text → Record → Record) : List Action :=
  items.map fun item =>
    .push (dup item (c.setMetric what c.newRec))

def infinibandRecord (item : Text) (new_rec : Record) : Record :=
  set (set (set new_rec "type".toList (.str item)) "val".toList (fetch c.fields item))
    "device".toList (fetch c.tags "device".toList)

def infiniband : List Action :=
  c.expand "infiniband_errors".toList (["link_downed", "link_error_recovery",
    "local_link_integrity_errors", "port_rcv_constraint_errors", "port_rcv_errors",
    "port_xmit_discards", "port_rcv_remote_physical_errors", "port_rcv_switch_relay_errors",
    "port_xmit_constraint_errors"].map String.toList) c.infinibandRecord ++
  c.expand "infiniband_metrics".toList (["multicast_rcv_packets", "multicast_xmit_packets",
    "port_rcv_data", "port_rcv_packets", "port_xmit_data", "port_xmit_packets", "port_xmit_wait",
    "unicast_rcv_packets", "unicast_xmit_packets"].map String.toList) c.infinibandRecord

def cpu : List Action :=
  c.expand "cpu_usage".toList (["usage_guest", "usage_guest_nice", "usage_idle", "usage_iowait",
    "usage_irq", "usage_nice", "usage_softirq", "usage_steal", "usage_system",
    "usage_user"].map String.toList) fun item new_rec =>
      set (set new_rec "type".toList (.str (remove (lit "usage_".toList 0) item)))
        "val".toList (fetch c.fields item)

/-- The value of the record is that of the sample. -/
def mem (job_key : Text) (time : Int) : List Action :=
  let item := "used_percent".toList
  let new_rec := c.setMetric "mem_usage".toList c.newRec
  [.sample job_key time (fetch c.fields item)
    (set (set new_rec "type".toList (.str (item ++ "_max".toList))) "val".toList
      (fetch c.fields item))]

def temp : Record :=
  set (set (c.setMetric "temp".toList c.newRec) "val".toList (fetch c.fields "temp".toList))
    "sensor".toList (fetch c.tags "sensor".toList)

def snapFloats : List Text := ["execution_time", "grind_time", "job_duration"].map String.toList

def snapInts : List Text :=
  ["job_nodes", "job_max_mem", "allocated_words", "job_cpu_total"].map String.toList

/-- Tags stored as numbers; an array, a hash or a boolean is none. -/
def addNumbers (convert : Val → Option ℚ) (items : List Text) (new_rec : Record) :
    Option Record :=
  items.foldlM (fun r item => (convert (fetch c.tags item)).map fun x => set r item (.num x))
    new_rec

def snapTexts : Record :=
  c.copyTags (["job_result", "job_started", "job_ended", "test_node_list"].map String.toList)
    (set c.newRec "metric".toList (.str "snap_pavilion_parser".toList))

def snap (rb : Runtime) : Option Record :=
  ((c.addNumbers (Val.to_f rb) snapFloats c.snapTexts).bind
    (c.addNumbers Val.to_i snapInts)).map fun new_rec =>
      set new_rec "jobid".toList (fetch c.tags "job_id".toList)

def snapActions (rb : Runtime) : List Action :=
  if c.isMessage "daap_pavilion_parser".toList then
    match c.snap rb with
    | none => [.raise]
    | some new_rec => [.push new_rec]
  else []

def actions (rb : Runtime) (time : Int) : List Action :=
  match jobOf c.jobinfo with
  | none => []
  | some (jobid, job_name) =>
      let job_key := jobid ++ "_".toList ++ job_name
      if c.finalName = "infiniband".toList then c.infiniband
      else if c.finalName = "cpu".toList then c.cpu
      else if c.finalName = "mem".toList then c.mem job_key time
      else if c.finalName = "temp".toList then [.push c.temp]
      else if c.finalName = "snap_pavilion_parser".toList then c.snapActions rb
      else [.push c.newRec]

end Child

def namedActions (rb : Runtime) (time : Int) (child : Record) (name : Text) : List Action :=
  match readChild child name with
  | none => [.raise]
  | some c => c.actions rb time

def childActions (rb : Runtime) (time : Int) (child : Val) : List Action :=
  match child with
  | .hash child =>
      if hasKey child "fields".toList && hasKey child "name".toList then
        match fetch child "name".toList with
        | .str name => if name ∈ names then namedActions rb time child name else []
        | _ => []
      else []
  | _ => [.raise]

end DaapLog.PluginChildren

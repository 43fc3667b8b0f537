import DaapLog.PluginChildren
import DaapLog.TextDispatch

/-!
`process` of the output plugin: the records of a stream are collected, stamped and
emitted together, and then old jobs are dropped.
-/

namespace DaapLog.PluginProcess

open DaapLog.CStrings
open DaapLog.OrderedHash
open DaapLog.RubyValues
open DaapLog.PluginActions
open DaapLog.PluginChildren
open DaapLog.TextDispatch

abbrev Event := Int × Record

/-- The record itself or, if `fields` is part of its message, what the message says
as JSON; everything but a hash fails later. -/
def parsedRecord (rb : Runtime) (record : Record) : Option Record :=
  match fetch record "message".toList with
  | .nil => some record
  | .bool false => some record
  | message =>
      match message.includes "fields".toList with
      | none => none
      | some false => some record
      | some true => message.asText.bind fun text => (rb.json_parse text).bind Val.asHash

/-- The values that `each` goes over; the pairs of a hash are arrays. -/
def elements : Val → Option (List Val)
  | .arr items => some items
  | .hash entries => some (entries.map fun e => .arr [.str e.1, e.2])
  | _ => none

def recordActions (rb : Runtime) (time : Int) (record : Record) : List Action :=
  if !hasKey record "metrics".toList && hasKey record "message".toList then
    messageActions rb (fetch record "message".toList)
  else
    match elements (fetch record "metrics".toList) with
    | none => [.raise]
    | some children => children.flatMap (childActions rb time)

def eventActions (rb : Runtime) (e : Event) : List Action :=
  if hasKey e.2 "metrics".toList || hasKey e.2 "message".toList then
    match parsedRecord rb e.2 with
    | none => [.raise]
    | some record => recordActions rb e.1 record
  else []

/-- The records with one of these words in their metric get their time as a text. -/
def timedMetrics : List Text :=
  ["job_state", "job_duration", "xrage", "sap", "ristra", "lap", "jayenne", "mcatk"].map
    String.toList

/-- The metric of a record is always a text. -/
def isTimed (m : Record) : Bool :=
  match get m "metric".toList with
  | some (.str metric) => timedMetrics.any fun word => strstr metric word
  | _ => false

/-- A record with the time it is emitted at; `Time.at` takes numbers only. -/
def stampRecord (rb : Runtime) (m : Record) : Option (Val × Record) :=
  let ts := fetch m "timestamp".toList
  if isTimed m then
    ts.asNum.map fun x => (ts, set m "timestamp".toList (.str (rb.strftime x)))
  else some (ts, m)

/-- Deleting the jobs without a sample in the last half hour. -/
def cleanJobs (cur_ts : Int) (jobs : Hash Text Job) : Hash Text Job :=
  jobs.filter fun e => !(cur_ts - e.2.timestamp > 30 * 60)

/-- The end of a call: without records it returns early. -/
def send (rb : Runtime) (cur_ts : Int) (jobs : Hash Text Job) (metrics : List Record) :
    Hash Text Job × Option (List (Val × Record)) :=
  if metrics.length = 0 then (jobs, some [])
  else
    match metrics.mapM (stampRecord rb) with
    | none => (jobs, none)
    | some out => (cleanJobs cur_ts jobs, some out)

/-- `@jobs` behind a call with the clock at `cur_ts` and what the call emits, nothing
if it ends with an exception. -/
def process (rb : Runtime) (cur_ts : Int) (jobs : Hash Text Job) (es : List Event) :
    Hash Text Job × Option (List (Val × Record)) :=
  match perform jobs (es.flatMap (eventActions rb)) with
  | (jobs, none) => (jobs, none)
  | (jobs, some metrics) => send rb cur_ts jobs metrics

theorem stampRecord_get {rb : Runtime} {m : Record} {out : Val × Record}
    (h : stampRecord rb m = some out) {key : Text} (hkey : key ≠ "timestamp".toList) :
    get out.2 key = get m key := by
  rw [stampRecord] at h
  split at h
  · obtain ⟨x, -, rfl⟩ := Option.map_eq_some_iff.mp h
    exact get_set_of_ne hkey _ _
  · obtain rfl := Option.some.inj h
    rfl

theorem send_emits (rb : Runtime) (cur_ts : Int) (jobs : Hash Text Job) (metrics : List Record) :
    (send rb cur_ts jobs metrics).2 = metrics.mapM (stampRecord rb) := by
  cases metrics with
  | nil => rfl
  | cons m metrics =>
      rw [send, if_neg (by simp)]
      cases (m :: metrics).mapM (stampRecord rb) <;> rfl

theorem send_jobs (rb : Runtime) (cur_ts : Int) (jobs : Hash Text Job) (metrics : List Record) :
    (send rb cur_ts jobs metrics).1 = jobs ∨
      (send rb cur_ts jobs metrics).1 = cleanJobs cur_ts jobs := by
  rw [send]
  split
  · exact .inl rfl
  · cases metrics.mapM (stampRecord rb) with
    | none => exact .inl rfl
    | some out => exact .inr rfl

theorem process_jobs (rb : Runtime) (cur_ts : Int) (jobs : Hash Text Job) (es : List Event) :
    (process rb cur_ts jobs es).1 = (perform jobs (es.flatMap (eventActions rb))).1 ∨
      (process rb cur_ts jobs es).1 =
        cleanJobs cur_ts (perform jobs (es.flatMap (eventActions rb))).1 := by
  rw [process]
  rcases perform jobs (es.flatMap (eventActions rb)) with ⟨jobs', _ | metrics⟩
  · exact .inl rfl
  · exact send_jobs rb cur_ts jobs' metrics

/-- The record of an action as it is emitted, unless the action or `Time.at` raises. -/
def emit (rb : Runtime) : Action → Option (Val × Record)
  | .push new_rec => stampRecord rb new_rec
  | .sample _ _ new_mem dup_rec => new_mem.asNum.bind fun _ => stampRecord rb dup_rec
  | .raise => none

theorem mapM_cons_some {α β : Type*} (f : α → Option β) (a : α) (l : List α) :
    (a :: l).mapM f = (f a).bind fun b => (l.mapM f).map (b :: ·) := by
  rw [List.mapM_cons]
  cases f a <;> cases l.mapM f <;> rfl

theorem bind_mapM_cons {α β : Type*} (f : α → Option β) (a : α) (rest : Option (List α)) :
    (rest.map (a :: ·)).bind (List.mapM f) =
      (f a).bind fun b => (rest.bind (List.mapM f)).map (b :: ·) := by
  cases rest with
  | none => cases f a <;> rfl
  | some l => exact mapM_cons_some f a l

theorem perform_stamp (rb : Runtime) (jobs : Hash Text Job) (actions : List Action) :
    (perform jobs actions).2.bind (List.mapM (stampRecord rb)) = actions.mapM (emit rb) := by
  induction actions generalizing jobs with
  | nil => rfl
  | cons action actions ih =>
      rw [mapM_cons_some]
      cases action with
      | push new_rec => rw [perform, bind_mapM_cons, ih jobs, emit]
      | sample job_key time new_mem dup_rec =>
          cases hmem : new_mem.asNum with
          | none => simp only [perform, emit, hmem, Option.bind_none]
          | some x =>
              simp only [perform, emit, hmem, Option.bind_some]
              rw [bind_mapM_cons, ih]
      | raise => rfl

/-- A call emits what each event of the stream yields, or nothing if one of them raises;
`@jobs` and the clock do not matter. -/
theorem process_emits (rb : Runtime) (cur_ts : Int) (jobs : Hash Text Job) (es : List Event) :
    (process rb cur_ts jobs es).2 = (es.flatMap (eventActions rb)).mapM (emit rb) := by
  rw [← perform_stamp rb jobs, process]
  rcases perform jobs (es.flatMap (eventActions rb)) with ⟨jobs', _ | metrics⟩
  · rfl
  · exact send_emits rb cur_ts jobs' metrics

theorem process_append (rb : Runtime) (cur_ts : Int) (jobs : Hash Text Job)
    (front back : List Event) :
    (process rb cur_ts jobs (front ++ back)).2 =
      (process rb cur_ts jobs front).2.bind fun out =>
        (process rb cur_ts jobs back).2.map fun out' => out ++ out' := by
  rw [process_emits, process_emits, process_emits, List.flatMap_append, List.mapM_append]
  cases (front.flatMap (eventActions rb)).mapM (emit rb) with
  | none => rfl
  | some out => cases (back.flatMap (eventActions rb)).mapM (emit rb) <;> rfl

theorem mapM_isSome_iff {α β : Type*} (f : α → Option β) (l : List α) :
    (l.mapM f).isSome ↔ ∀ a ∈ l, (f a).isSome := by
  induction l with
  | nil => simp
  | cons a l ih =>
      rw [List.forall_mem_cons, ← ih, mapM_cons_some]
      cases f a <;> simp

end DaapLog.PluginProcess

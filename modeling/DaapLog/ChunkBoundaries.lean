import DaapLog.MemoryHistory

/-!
How a sequence of events is cut into calls of `process` does not matter: each event
adds its own records to what is emitted, and each child of an event its own.
-/

namespace DaapLog.ChunkBoundaries

open DaapLog.CStrings
open DaapLog.OrderedHash
open DaapLog.RubyValues
open DaapLog.PluginActions
open DaapLog.PluginChildren
open DaapLog.PluginProcess
open DaapLog.MemoryHistory

/-- A call of `process` with the clock at its end; of `@jobs` it finds what is kept. -/
structure Chunk where
  cur_ts : Int
  kept : Text × Job → Bool
  es : List Event

/-- What the calls on one instance emit, one after the other, nothing if one of them
raises. -/
def emitted (rb : Runtime) : Hash Text Job → List Chunk → Option (List (Val × Record))
  | _, [] => some []
  | jobs, c :: rest =>
      let r := process rb c.cur_ts (jobs.filter c.kept) c.es
      r.2.bind fun out => (emitted rb r.1 rest).map fun out' => out ++ out'

/-- What an event emits that is all that a new instance gets. -/
def yielded (rb : Runtime) (e : Event) : List (Val × Record) :=
  ((process rb 0 [] [e]).2).getD []

def childEvent (time : Int) (child : Val) : Event :=
  (time, [("metrics".toList, .arr [child])])

/-- What the events emit does not depend on the calls that they come in, and neither
events nor the children of an event add to the records of each other. -/
structure Separable (rb : Runtime) (es : List Event) (out : List (Val × Record)) : Prop where
  chunks : ∀ (jobs : Hash Text Job) (calls : List Chunk), calls.flatMap Chunk.es = es →
    emitted rb jobs calls = some out
  events : out = es.flatMap (yielded rb)
  children : ∀ e ∈ es, ∀ record children, parsedRecord rb e.2 = some record →
    elements (fetch record "metrics".toList) = some children →
      yielded rb e = children.flatMap fun child => yielded rb (childEvent e.1 child)

theorem mapM_flatMap_some {α β γ : Type*} {f : α → List β} {g : β → Option γ} {l : List α}
    {out : List γ} (h : (l.flatMap f).mapM g = some out) :
    out = l.flatMap fun a => ((f a).mapM g).getD [] := by
  induction l generalizing out with
  | nil => exact (Option.some.inj h).symm
  | cons a l ih =>
      rw [List.flatMap_cons, List.mapM_append] at h
      obtain ⟨front, hfront, h⟩ := Option.bind_eq_some_iff.mp h
      obtain ⟨back, hback, h⟩ := Option.bind_eq_some_iff.mp h
      rw [List.flatMap_cons, hfront, ← ih hback]
      exact (Option.some.inj h).symm

section Cuts

variable (rb : Runtime)

/-- Neither the clock nor `@jobs` matters for what a call emits. -/
theorem process_emits_same (cur_ts cur_ts' : Int) (jobs jobs' : Hash Text Job)
    (es : List Event) : (process rb cur_ts jobs es).2 = (process rb cur_ts' jobs' es).2 := by
  rw [process_emits, process_emits]

theorem emitted_eq_process (jobs : Hash Text Job) (calls : List Chunk) :
    emitted rb jobs calls = (process rb 0 [] (calls.flatMap Chunk.es)).2 := by
  induction calls generalizing jobs with
  | nil => rfl
  | cons c rest ih =>
      rw [List.flatMap_cons, process_append, emitted]
      rw [process_emits_same rb c.cur_ts 0 (jobs.filter c.kept) []]
      simp only [ih]

theorem yielded_eq (e : Event) :
    yielded rb e = ((eventActions rb e).mapM (emit rb)).getD [] := by
  rw [yielded, process_emits, List.flatMap_singleton]

theorem eventActions_children {e : Event} {record : Record} {children : List Val}
    (hrecord : parsedRecord rb e.2 = some record)
    (hchildren : elements (fetch record "metrics".toList) = some children) :
    eventActions rb e = children.flatMap (childActions rb e.1) := by
  have hmetrics : hasKey record "metrics".toList = true := by
    cases hkey : hasKey record "metrics".toList with
    | true => rfl
    | false =>
        rw [fetch_of_not_hasKey hkey] at hchildren
        exact absurd hchildren nofun
  have hnext : (hasKey e.2 "metrics".toList || hasKey e.2 "message".toList) = true := by
    cases hmessage : hasKey e.2 "message".toList with
    | true => exact Bool.or_true _
    | false =>
        rw [parsedRecord, fetch_of_not_hasKey hmessage] at hrecord
        obtain rfl := Option.some.inj hrecord
        rw [hmetrics, Bool.true_or]
  rw [eventActions, if_pos hnext, hrecord]
  simp only [recordActions, hmetrics, hchildren, Bool.not_true, Bool.false_and]
  rfl

theorem eventActions_childEvent (time : Int) (child : Val) :
    eventActions rb (childEvent time child) = childActions rb time child := by
  have hrecord : parsedRecord rb (childEvent time child).2 = some (childEvent time child).2 := rfl
  rw [eventActions_children rb hrecord rfl, List.flatMap_singleton]
  rfl

end Cuts

/-- Wherever a sequence of events is cut into calls, the same is emitted. -/
theorem process_separable {rb : Runtime} {cur_ts : Int} {jobs : Hash Text Job}
    {es : List Event} {out : List (Val × Record)} (h : (process rb cur_ts jobs es).2 = some out) :
    Separable rb es out where
  chunks jobs' calls hcut := by
    rw [emitted_eq_process, hcut, ← h]
    exact process_emits_same rb 0 cur_ts [] jobs es
  events := by
    rw [process_emits] at h
    rw [mapM_flatMap_some h, funext (yielded_eq rb)]
  children e he record children hrecord hchildren := by
    have hsome : ((eventActions rb e).mapM (emit rb)).isSome := by
      rw [mapM_isSome_iff]
      intro action haction
      rw [process_emits] at h
      have hall := (mapM_isSome_iff (emit rb) (es.flatMap (eventActions rb))).mp (h ▸ rfl)
      exact hall action (List.mem_flatMap.mpr ⟨e, he, haction⟩)
    obtain ⟨records, hrecords⟩ := Option.isSome_iff_exists.mp hsome
    have hyielded := mapM_flatMap_some (eventActions_children rb hrecord hchildren ▸ hrecords)
    rw [yielded_eq, hrecords]
    simp only [yielded_eq, eventActions_childEvent]
    exact hyielded

/-- Two samples of one job. -/
theorem process_separable_memEvents :
    ∃ out, Separable integerRuntime [memEvent 40, memEvent 30] out := by
  have hsome : (process integerRuntime 0 [] [memEvent 40, memEvent 30]).2.isSome := by
    decide +kernel
  obtain ⟨out, h⟩ := Option.isSome_iff_exists.mp hsome
  exact ⟨out, process_separable h⟩

end DaapLog.ChunkBoundaries

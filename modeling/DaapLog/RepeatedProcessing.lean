import DaapLog.CleanMessages
import DaapLog.MemoryHistory

/-!
What a call of `process` leaves of the records that it gets, and when a second call over
the same events emits what the first one did.
-/

namespace DaapLog.RepeatedProcessing

open DaapLog.CStrings
open DaapLog.OrderedHash
open DaapLog.RubyValues
open DaapLog.PluginActions
open DaapLog.PluginMessages
open DaapLog.CaliperReports
open DaapLog.TextDispatch
open DaapLog.PluginProcess
open DaapLog.MemoryHistory
open DaapLog.CleanMessages

/-- The string of a message behind its branch. -/
def editedText (message : Text) : Text :=
  if strstr message caliperTrigger then
    match caliperCode message with
    | none => message
    | some code => caliperRest message code
  else
    match firstCode message with
    | none => message
    | some code => common_clean message code code.first_field

/-- The branch for poisson replaces an unknown `cpu` of the record it gets. -/
def editedCpu (message : Text) (record : Record) : Record :=
  if !strstr message caliperTrigger && firstCode message = some .poisson &&
      (fetch record "cpu".toList).isText "TODO".toList then
    set record "cpu".toList (.num 0)
  else record

/-- The record of an event behind a call that does not raise. A message with `fields` is
parsed into a new record. -/
def editedRecord (record : Record) : Record :=
  if hasKey record "metrics".toList then record
  else
    match fetch record "message".toList with
    | .str message =>
        if strstr message "fields".toList then record
        else editedCpu message (set record "message".toList (.str (editedText message)))
    | _ => record

def processed (e : Event) : Event := (e.1, editedRecord e.2)

/-- The keys and the messages of the records are as before, and a second call over the
events emits the same. -/
structure Repeatable (rb : Runtime) (es : List Event) (out : List (Val × Record)) : Prop where
  keys : ∀ e ∈ es, (processed e).2.map Prod.fst = e.2.map Prod.fst
  messages : ∀ e ∈ es, fetch (processed e).2 "message".toList = fetch e.2 "message".toList
  again : ∀ cur_ts jobs, (process rb cur_ts jobs (es.map processed)).2 = some out

/-- The branch of the message has nothing to edit. -/
def TextUntouched (message : Text) : Prop :=
  if strstr message caliperTrigger then ¬BeginsWithCode message
  else ∀ code, firstCode message = some code → IsClean code message

/-- An event without a text for one of the branches, or with one that has nothing to
edit. -/
def Untouched (record : Record) : Prop :=
  hasKey record "metrics".toList = false → ∀ message,
    fetch record "message".toList = .str message → strstr message "fields".toList = false →
      TextUntouched message

theorem editedText_eq_self_iff (message : Text) :
    editedText message = message ↔ TextUntouched message := by
  rw [editedText, TextUntouched]
  split
  · rw [← caliperCode_isSome_iff]
    cases hcode : caliperCode message with
    | none => exact iff_of_true rfl nofun
    | some code => exact iff_of_false (caliperRest_ne hcode) (by simp)
  · cases hcode : firstCode message with
    | none => exact iff_of_true rfl nofun
    | some code =>
        simp only [Option.some.injEq, forall_eq']
        exact common_clean_eq_self_iff code message

section Records

theorem editedCpu_get (message : Text) (record : Record) {key : Text}
    (hkey : key ≠ "cpu".toList) : get (editedCpu message record) key = get record key := by
  rw [editedCpu]
  split
  · exact get_set_of_ne hkey _ _
  · rfl

theorem editedCpu_keys (message : Text) (record : Record) :
    (editedCpu message record).map Prod.fst = record.map Prod.fst := by
  rw [editedCpu]
  split
  · next h =>
      simp only [Bool.and_eq_true] at h
      refine keys_set (hasKey_of_fetch_ne fun hnil => ?_) _
      rw [hnil] at h
      exact absurd h.2 nofun
  · rfl

theorem editedRecord_keys (record : Record) :
    (editedRecord record).map Prod.fst = record.map Prod.fst := by
  rw [editedRecord]
  split
  · rfl
  · split
    · next message hmessage =>
        split
        · rfl
        · rw [editedCpu_keys, keys_set (hasKey_of_fetch_ne (by rw [hmessage]; simp))]
    · rfl

theorem editedRecord_get_metrics (record : Record) :
    get (editedRecord record) "metrics".toList = get record "metrics".toList := by
  rw [editedRecord]
  split
  · rfl
  · split
    · split
      · rfl
      · rw [editedCpu_get _ _ (by decide), get_set_of_ne (by decide)]
    · rfl

theorem editedRecord_message_iff (record : Record) :
    fetch (editedRecord record) "message".toList = fetch record "message".toList ↔
      Untouched record := by
  rw [editedRecord, Untouched]
  split
  · next hmetrics => exact iff_of_true rfl fun h => Bool.noConfusion (hmetrics.symm.trans h)
  · next hmetrics =>
      rw [Bool.not_eq_true] at hmetrics
      simp only [hmetrics, forall_true_left]
      split
      · next message hmessage =>
          simp only [hmessage, Val.str.injEq, forall_eq']
          split
          · next hfields =>
              exact iff_of_true hmessage fun h => Bool.noConfusion (hfields.symm.trans h)
          · next hfields =>
              rw [Bool.not_eq_true] at hfields
              simp only [hfields, forall_true_left]
              rw [fetch, editedCpu_get _ _ (by decide), get_set_self, Option.getD_some,
                Val.str.injEq]
              exact editedText_eq_self_iff message
      · next hnot => exact iff_of_true rfl fun message hmessage => absurd hmessage (hnot message)

theorem editedRecord_get_message {record : Record} (h : Untouched record) :
    get (editedRecord record) "message".toList = get record "message".toList := by
  have hsame := (editedRecord_message_iff record).mpr h
  cases hget : get record "message".toList with
  | none =>
      have hfetch : fetch record "message".toList = .nil := by rw [fetch, hget]; rfl
      rw [editedRecord, hfetch]
      split
      · exact hget
      · exact hget
  | some v =>
      have hkey : "message".toList ∈ (editedRecord record).map Prod.fst := by
        rw [editedRecord_keys]
        exact List.mem_map.mpr ⟨_, mem_of_get hget, rfl⟩
      obtain ⟨v', hv'⟩ := exists_get_of_mem_keys hkey
      rw [fetch, fetch, hget, hv'] at hsame
      rw [hv']
      exact congrArg some hsame

end Records

section Events

variable {rb : Runtime} {time : Int} {record record' : Record}

theorem recordActions_congr
    (hmetrics : get record "metrics".toList = get record' "metrics".toList)
    (hmessage : get record "message".toList = get record' "message".toList) :
    recordActions rb time record = recordActions rb time record' := by
  rw [recordActions, recordActions, hasKey, hasKey, hasKey, hasKey, fetch, fetch, fetch, fetch,
    hmetrics, hmessage]

/-- What an event does depends on two of its keys. -/
theorem eventActions_congr
    (hmetrics : get record "metrics".toList = get record' "metrics".toList)
    (hmessage : get record "message".toList = get record' "message".toList) :
    eventActions rb (time, record) = eventActions rb (time, record') := by
  have hkeys (key : Text) (h : get record key = get record' key) :
      hasKey record key = hasKey record' key := by rw [hasKey, hasKey, h]
  have hfetch : fetch record "message".toList = fetch record' "message".toList := by
    rw [fetch, fetch, hmessage]
  have hparsed : (parsedRecord rb record).map (recordActions rb time) =
      (parsedRecord rb record').map (recordActions rb time) := by
    have hsame : some (recordActions rb time record) = some (recordActions rb time record') :=
      congrArg some (recordActions_congr hmetrics hmessage)
    rw [parsedRecord, parsedRecord, hfetch]
    split
    · exact hsame
    · exact hsame
    · split
      · rfl
      · exact hsame
      · rfl
  rw [eventActions, eventActions, hkeys _ hmetrics, hkeys _ hmessage]
  split
  · cases hrecord : parsedRecord rb record with
    | none =>
        rw [hrecord] at hparsed
        rw [Option.map_eq_none_iff.mp hparsed.symm]
    | some r =>
        rw [hrecord] at hparsed
        obtain ⟨r', hr', heq⟩ := Option.map_eq_some_iff.mp hparsed.symm
        rw [hr']
        exact heq.symm
  · rfl

end Events

/-- A stream can be processed again exactly if no record of it is for a branch with
something to edit. -/
theorem process_repeatable_iff {rb : Runtime} {cur_ts : Int} {jobs : Hash Text Job}
    {es : List Event} {out : List (Val × Record)} (h : (process rb cur_ts jobs es).2 = some out) :
    Repeatable rb es out ↔ ∀ e ∈ es, Untouched e.2 := by
  constructor
  · intro hrepeat e he
    exact (editedRecord_message_iff e.2).mp (hrepeat.messages e he)
  · intro hall
    refine ⟨fun e _ => editedRecord_keys e.2,
      fun e he => (editedRecord_message_iff e.2).mpr (hall e he), ?_⟩
    intro cur_ts' jobs'
    have hactions : ∀ e ∈ es, eventActions rb (processed e) = eventActions rb e := by
      intro e he
      exact eventActions_congr (editedRecord_get_metrics e.2)
        (editedRecord_get_message (hall e he))
    rw [← h, process_emits, process_emits, List.flatMap_map, List.flatMap_congr hactions]

def cleanEvent : Event := (5, [("message".toList, .str "x=sap,npes=4,timestamp=9".toList)])

theorem process_repeatable_cleanEvent :
    ∃ out, (process integerRuntime 0 [] [cleanEvent]).2 = some out ∧
      Repeatable integerRuntime [cleanEvent] out := by
  have hsome : (process integerRuntime 0 [] [cleanEvent]).2.isSome := by decide +kernel
  obtain ⟨out, hout⟩ := Option.isSome_iff_exists.mp hsome
  refine ⟨out, hout, (process_repeatable_iff hout).mpr ?_⟩
  intro e he _ message hmessage _
  obtain rfl := List.mem_singleton.mp he
  obtain rfl := Val.str.inj hmessage
  rw [← editedText_eq_self_iff]
  decide +kernel

def sapEvent : Event := (5, [("message".toList, .str "sap,npes=4".toList)])

/-- The second call does not find the trigger and drops the report. -/
theorem process_not_repeatable :
    ∃ out, (process integerRuntime 0 [] [sapEvent]).2 = some out ∧ out.length = 1 ∧
      fetch (processed sapEvent).2 "message".toList ≠ fetch sapEvent.2 "message".toList ∧
      (process integerRuntime 0 [] [processed sapEvent]).2 = some [] ∧
      ¬Repeatable integerRuntime [sapEvent] out := by
  have hlength : (process integerRuntime 0 [] [sapEvent]).2.map List.length = some 1 := by
    decide +kernel
  obtain ⟨out, hout, hone⟩ := Option.map_eq_some_iff.mp hlength
  have hedited : editedText "sap,npes=4".toList = "npes=4".toList := by decide +kernel
  have hmessage : fetch (processed sapEvent).2 "message".toList = .str "npes=4".toList :=
    congrArg Val.str hedited
  have hne : fetch (processed sapEvent).2 "message".toList ≠ fetch sapEvent.2 "message".toList := by
    rw [hmessage]
    intro heq
    exact absurd (Val.str.inj heq) (by decide)
  have hagain : (process integerRuntime 0 [] [processed sapEvent]).2.map List.length = some 0 := by
    decide +kernel
  obtain ⟨out', hout', hzero⟩ := Option.map_eq_some_iff.mp hagain
  refine ⟨out, hout, hone, hne, ?_, fun hrepeat => hne (hrepeat.messages _ List.mem_cons_self)⟩
  rw [hout', List.length_eq_zero_iff.mp hzero]

end DaapLog.RepeatedProcessing

import DaapLog.ErrorIsolation

/-!
A message goes to the first branch whose trigger stands anywhere in it, and its items
may replace the metric: when a message of a code becomes a record of that code.
-/

namespace DaapLog.MessageDispatch

open DaapLog.CStrings
open DaapLog.OrderedHash
open DaapLog.RubyValues
open DaapLog.PluginActions
open DaapLog.PluginMessages
open DaapLog.TextDispatch
open DaapLog.PluginProcess
open DaapLog.ErrorIsolation

/-- No JSON text starts with the name of a code. -/
def RejectsNames (rb : Runtime) : Prop :=
  ∀ (code : Code) (rest : Text), rb.json_parse (code.text ++ rest) = none

/-- The event yields one record, with the metric of the code. -/
def EmitsAs (rb : Runtime) (cur_ts : Int) (jobs : Hash Text Job) (e : Event) (code : Code) :
    Prop :=
  ∃ ts m, (process rb cur_ts jobs [e]).2 = some [(ts, m)] ∧
    get m "metric".toList = some (.str code.metric)

/-- The message is not taken for JSON, its first branch can parse it, and the record of
that branch has the metric of the code: from its last `metric` item, or because it is the
branch of the code and there is no such item. -/
def DispatchesTo (message : Text) (code : Code) : Prop :=
  strstr message "fields".toList = false ∧
    ∃ first, firstCode message = some first ∧ ItemsValued first message ∧
      (first = .xrage → kv_pairs first message ≠ []) ∧
      (itemValue "metric".toList (kv_pairs first message) = some code.metric ∨
        (itemValue "metric".toList (kv_pairs first message) = none ∧ first = code))

theorem metricOf_eq_iff (first code : Code) (message : Text) :
    metricOf first message = code.metric ↔
      itemValue "metric".toList (kv_pairs first message) = some code.metric ∨
        (itemValue "metric".toList (kv_pairs first message) = none ∧ first = code) := by
  rw [metricOf]
  cases itemValue "metric".toList (kv_pairs first message) with
  | none => simpa using Code.metric_injective.eq_iff
  | some metric => simp

theorem firstCode_isSome {code : Code} {message : Text} (hcode : code.trigger <+: message) :
    (firstCode message).isSome := by
  rw [firstCode, List.find?_isSome]
  exact ⟨code, Code.mem_all code, by simpa [strstr] using hcode.isInfix⟩

section Message

variable {record : Record} {message : Text}

theorem eventActions_text (rb : Runtime) (time : Int)
    (hmetrics : hasKey record "metrics".toList = false)
    (hmessage : get record "message".toList = some (.str message))
    (hfields : strstr message "fields".toList = false) :
    eventActions rb (time, record) = textActions rb message := by
  have hkey : hasKey record "message".toList = true := by rw [hasKey, hmessage]; rfl
  have hfetch : fetch record "message".toList = .str message := by rw [fetch, hmessage]; rfl
  have hparsed : parsedRecord rb record = some record := by
    rw [parsedRecord, hfetch]
    simp only [Val.includes, hfields]
  rw [eventActions, hkey, Bool.or_true, if_pos rfl, hparsed]
  simp only [recordActions, hmetrics, hkey, hfetch, messageActions, Bool.not_false, Bool.and_self,
    if_pos]

theorem eventActions_raise {rb : Runtime} (time : Int) (hjson : rb.json_parse message = none)
    (hmessage : get record "message".toList = some (.str message))
    (hfields : strstr message "fields".toList = true) :
    eventActions rb (time, record) = [.raise] := by
  have hkey : hasKey record "message".toList = true := by rw [hasKey, hmessage]; rfl
  have hfetch : fetch record "message".toList = .str message := by rw [fetch, hmessage]; rfl
  have hparsed : parsedRecord rb record = none := by
    rw [parsedRecord, hfetch]
    simp only [Val.includes, hfields, Val.asText, Option.bind_some, hjson, Option.bind_none]
  rw [eventActions, hkey, Bool.or_true, if_pos rfl, hparsed]

end Message

theorem emitsAs_iff_of_cases (rb : Runtime) (cur_ts : Int) (jobs : Hash Text Job) {e : Event}
    {first : Code} {message : Text} (code : Code)
    (hcases : BranchCases first message (eventActions rb e)) :
    EmitsAs rb cur_ts jobs e code ↔
      ItemsValued first message ∧ (first = .xrage → kv_pairs first message ≠ []) ∧
        metricOf first message = code.metric := by
  have hout : (process rb cur_ts jobs [e]).2 = (eventActions rb e).mapM (emit rb) := by
    rw [process_emits, List.flatMap_singleton]
  rw [EmitsAs, hout]
  rcases hcases with ⟨hnot, hraise⟩ | ⟨-, hxrage, hnil, hskip⟩ | ⟨hitems, hsome, r, hr, hpush⟩
  · rw [hraise]
    refine iff_of_false ?_ fun h => hnot h.1
    rintro ⟨ts, m, h, -⟩
    simp [emit] at h
  · rw [hskip]
    refine iff_of_false ?_ fun h => h.2.1 hxrage hnil
    rintro ⟨ts, m, h, -⟩
    simp at h
  · rw [hpush]
    obtain ⟨hmetric, ts, hts⟩ := hr
    have hget : get r.toRecord "metric".toList = some (.str (metricOf first message)) := by
      rw [get_toRecord, hmetric]
      rfl
    have hemit : (stampRecord rb r.toRecord).isSome := by
      rw [stampRecord_isSome_iff, fetch, get_toRecord, hts]
      exact fun _ => rfl
    obtain ⟨out, hstamp⟩ := Option.isSome_iff_exists.mp hemit
    have hmapM : [Action.push r.toRecord].mapM (emit rb) = some [out] := by
      rw [mapM_cons_some, emit, hstamp]
      rfl
    rw [hmapM]
    constructor
    · rintro ⟨ts, m, hsingle, hm⟩
      obtain rfl : out = (ts, m) := by simpa using hsingle
      rw [stampRecord_get hstamp (by decide), hget] at hm
      exact ⟨hitems, hsome, by simpa using hm⟩
    · rintro ⟨-, -, hcode⟩
      refine ⟨out.1, out.2, rfl, ?_⟩
      rw [stampRecord_get hstamp (by decide), hget, hcode]

theorem emitsAs_iff_dispatchesTo {rb : Runtime} (hjson : RejectsNames rb) (cur_ts time : Int)
    (jobs : Hash Text Job) {record : Record} {message : Text} {code : Code}
    (hmetrics : hasKey record "metrics".toList = false)
    (hmessage : get record "message".toList = some (.str message))
    (hcode : code.trigger <+: message) (hcaliper : strstr message caliperTrigger = false) :
    EmitsAs rb cur_ts jobs (time, record) code ↔ DispatchesTo message code := by
  obtain ⟨first, hfirst⟩ := Option.isSome_iff_exists.mp (firstCode_isSome hcode)
  cases hfields : strstr message "fields".toList with
  | true =>
      have hreject : rb.json_parse message = none := by
        obtain ⟨rest, rfl⟩ := hcode
        rw [Code.trigger, List.append_assoc]
        exact hjson code _
      refine iff_of_false ?_ fun h => Bool.noConfusion (hfields.symm.trans h.1)
      rintro ⟨ts, m, hout, -⟩
      rw [process_emits, List.flatMap_singleton,
        eventActions_raise time hreject hmessage hfields] at hout
      simp [emit] at hout
  | false =>
      have hactions : eventActions rb (time, record) = first.actions rb message := by
        rw [eventActions_text rb time hmetrics hmessage hfields, textActions, hcaliper,
          if_neg Bool.false_ne_true, hfirst]
      rw [emitsAs_iff_of_cases rb cur_ts jobs code (hactions ▸ first.actions_cases rb message),
        metricOf_eq_iff, DispatchesTo, hfirst]
      simp only [hfields, true_and, Option.some.injEq, exists_eq_left']

def mcatkRun : Text := "mcatk problem=ZEBR8H,ppn=32 1644527941000000000".toList

theorem emitsAs_mcatkRun :
    EmitsAs integerRuntime 0 [] (0, [("message".toList, .str mcatkRun)]) .mcatk := by
  refine (emitsAs_iff_dispatchesTo (fun _ _ => rfl) 0 0 [] (by decide) rfl (by decide)
    (by decide)).mpr ?_
  exact ⟨by decide, .mcatk, by decide, by decide +kernel, nofun, .inr ⟨by decide +kernel, rfl⟩⟩

/-- A problem that has the name of another code. -/
def jayenneProblem : Text := "mcatk problem=jayenne,ppn=32 1644527941000000000".toList

theorem emitsAs_fails_on_jayenneProblem :
    Code.mcatk.trigger <+: jayenneProblem ∧ strstr jayenneProblem caliperTrigger = false ∧
      ItemsValued .mcatk jayenneProblem ∧
      ¬EmitsAs integerRuntime 0 [] (0, [("message".toList, .str jayenneProblem)]) .mcatk := by
  refine ⟨by decide, by decide, by decide +kernel, ?_⟩
  rintro ⟨ts, m, hout, hm⟩
  have hmetric : (process integerRuntime 0 []
      [(0, [("message".toList, .str jayenneProblem)])]).2.map (fun out => out.map fun p =>
        (get p.2 "metric".toList).map fun v => v.isText Code.mcatk.metric) = some [some false] := by
    decide +kernel
  rw [hout] at hmetric
  simp only [Option.map_some, List.map_cons, List.map_nil, hm] at hmetric
  exact absurd hmetric (by decide)

end DaapLog.MessageDispatch

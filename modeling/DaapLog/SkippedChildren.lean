import DaapLog.ChunkBoundaries

/-!
Children of a record with `metrics` that lack tags or fields: when `process` gets past
them as it does past a child of another kind.
-/

namespace DaapLog.SkippedChildren

open DaapLog.CStrings
open DaapLog.OrderedHash
open DaapLog.RubyValues
open DaapLog.PluginActions
open DaapLog.PluginChildren
open DaapLog.PluginProcess
open DaapLog.ErrorIsolation
open DaapLog.ChunkBoundaries

/-- The plugin goes over these children for the event. -/
def Carries (rb : Runtime) (e : Event) (children : List Val) : Prop :=
  ∃ record, parsedRecord rb e.2 = some record ∧ fetch record "metrics".toList = .arr children

theorem eventActions_of_carries {rb : Runtime} {e : Event} {children : List Val}
    (h : Carries rb e children) :
    eventActions rb e = children.flatMap (childActions rb e.1) := by
  obtain ⟨record, hrecord, hmetrics⟩ := h
  refine eventActions_children rb hrecord ?_
  rw [hmetrics]
  rfl

/-- An event of these children alone. -/
def metricsEvent (time : Int) (children : List Val) : Event :=
  (time, [("metrics".toList, .arr children)])

theorem carries_metricsEvent (rb : Runtime) (time : Int) (children : List Val) :
    Carries rb (metricsEvent time children) children :=
  ⟨_, rfl, rfl⟩

/-- With the child in its record the call gets through whenever it does without it. -/
def NotFatal (rb : Runtime) (time : Int) (child : Val) : Prop :=
  ∀ cur_ts jobs past future front back record record',
    Carries rb (time, record) (front ++ back) →
    Carries rb (time, record') (front ++ child :: back) →
    (process rb cur_ts jobs (past ++ (time, record) :: future)).2.isSome →
      (process rb cur_ts jobs (past ++ (time, record') :: future)).2.isSome

/-- With the child in its record the call emits what it does without it. -/
def NoRecord (rb : Runtime) (time : Int) (child : Val) : Prop :=
  ∀ cur_ts jobs past future front back record record',
    Carries rb (time, record) (front ++ back) →
    Carries rb (time, record') (front ++ child :: back) →
    (process rb cur_ts jobs (past ++ (time, record') :: future)).2 =
      (process rb cur_ts jobs (past ++ (time, record) :: future)).2

section Calls

variable {rb : Runtime} {time : Int} {child : Val}

theorem notFatal_iff_allEmitted :
    NotFatal rb time child ↔ AllEmitted rb (childActions rb time child) := by
  constructor
  · intro h
    have hsome := h 0 [] [] [] [] [] _ _ (carries_metricsEvent rb time [])
      (carries_metricsEvent rb time [child]) rfl
    rw [process_emits, mapM_isSome_iff] at hsome
    intro action haction
    refine hsome action ?_
    rw [List.nil_append, List.flatMap_cons, List.flatMap_nil, List.append_nil]
    refine (eventActions_of_carries (carries_metricsEvent rb time [child])).symm ▸ ?_
    rwa [List.flatMap_cons, List.flatMap_nil, List.append_nil]
  · intro hchild cur_ts jobs past future front back record record' hcarries hcarries' hsome
    rw [process_emits, mapM_isSome_iff] at hsome ⊢
    rw [List.flatMap_append, List.flatMap_cons, eventActions_of_carries hcarries] at hsome
    rw [List.flatMap_append, List.flatMap_cons, eventActions_of_carries hcarries']
    simp only [List.flatMap_append, List.flatMap_cons, List.mem_append] at hsome ⊢
    rintro action (hpast | (hfront | hmid | hback) | hfuture)
    · exact hsome action (.inl hpast)
    · exact hsome action (.inr (.inl (.inl hfront)))
    · exact hchild action hmid
    · exact hsome action (.inr (.inl (.inr hback)))
    · exact hsome action (.inr (.inr hfuture))

theorem noRecord_of_nil (h : childActions rb time child = []) : NoRecord rb time child := by
  intro cur_ts jobs past future front back record record' hcarries hcarries'
  have hactions : eventActions rb (time, record') = eventActions rb (time, record) := by
    rw [eventActions_of_carries hcarries, eventActions_of_carries hcarries',
      List.flatMap_append, List.flatMap_append, List.flatMap_cons, h, List.nil_append]
  rw [process_emits, process_emits, List.flatMap_append, List.flatMap_append,
    List.flatMap_cons, List.flatMap_cons, hactions]

end Calls

/-- The child passes the checks for `fields` and its name, and has a host. -/
structure Accepted (child : Val) (entries tags : Record) (name host : Text) : Prop where
  isHash : child = .hash entries
  hasFields : hasKey entries "fields".toList
  named : fetch entries "name".toList = .str name
  listed : name ∈ names
  tagged : fetch entries "tags".toList = .hash tags
  hosted : fetch tags "host".toList = .str host

/-- A job id and a job name are found in the tags. -/
def HasJob (tags : Record) : Prop :=
  ∃ jobinfo, fetch tags "jobinfo".toList = .str jobinfo ∧ (jobOf jobinfo).isSome

/-- The child does not stop the call and, without a job, yields nothing. -/
def Skips (rb : Runtime) (time : Int) (child : Val) (tags : Record) : Prop :=
  NotFatal rb time child ∧ (¬HasJob tags → NoRecord rb time child)

/-- A message that is not a text is none that `include?` finds a word in. -/
def HarmlessMessage (jobinfo : Text) (fields : Record) : Prop :=
  ∀ message, get fields "message".toList = some message → message.asText = none →
    ∀ word ∈ wordsSought jobinfo, message.includes word = some false

def messageText (fields : Record) : Option Text := (get fields "message".toList).bind Val.asText

/-- There is a `jobinfo`, the fields are a hash, and with a job the values that are used
are of the right types. -/
def Complete (entries tags : Record) (name host : Text) : Prop :=
  ∃ jobinfo fields, fetch tags "jobinfo".toList = .str jobinfo ∧
    fetch entries "fields".toList = .hash fields ∧ HarmlessMessage jobinfo fields ∧
    ((jobOf jobinfo).isSome → WellTyped
      ⟨name, tags, fields, jobinfo, host, fetch entries "timestamp".toList, messageText fields⟩)

theorem asText_eq_some_iff {v : Val} {text : Text} : v.asText = some text ↔ v = .str text := by
  cases v <;> simp [Val.asText]

theorem asHash_eq_some_iff {v : Val} {entries : Record} :
    v.asHash = some entries ↔ v = .hash entries := by
  cases v <;> simp [Val.asHash]

theorem readMessage_eq_some_iff {jobinfo : Text} {fields : Record} {message : Option Text} :
    readMessage jobinfo fields = some message ↔
      HarmlessMessage jobinfo fields ∧ messageText fields = message := by
  rw [readMessage, HarmlessMessage, messageText]
  cases get fields "message".toList with
  | none => simp
  | some v =>
      cases v with
      | str text => simp [Val.asText]
      | _ => simp [Val.asText]

theorem readChild_of_accepted {child : Val} {entries tags : Record} {name host : Text}
    (h : Accepted child entries tags name host) (c : Child) :
    readChild entries name = some c ↔
      ∃ jobinfo fields, fetch tags "jobinfo".toList = .str jobinfo ∧
        fetch entries "fields".toList = .hash fields ∧ HarmlessMessage jobinfo fields ∧
        ⟨name, tags, fields, jobinfo, host, fetch entries "timestamp".toList,
          messageText fields⟩ = c := by
  have htags : (fetch entries "tags".toList).asHash = some tags := asHash_eq_some_iff.mpr h.tagged
  have hhost : (fetch tags "host".toList).asText = some host := asText_eq_some_iff.mpr h.hosted
  rw [readChild, htags, Option.bind_eq_bind, Option.bind_some, Option.bind_eq_bind,
    Option.bind_eq_some_iff]
  constructor
  · rintro ⟨jobinfo, hjobinfo, h⟩
    rw [hhost, Option.bind_eq_bind, Option.bind_some] at h
    obtain ⟨fields, hfields, h⟩ := Option.bind_eq_some_iff.mp h
    obtain ⟨message, hmessage, h⟩ := Option.bind_eq_some_iff.mp h
    obtain ⟨hharmless, rfl⟩ := readMessage_eq_some_iff.mp hmessage
    exact ⟨jobinfo, fields, asText_eq_some_iff.mp hjobinfo, asHash_eq_some_iff.mp hfields,
      hharmless, Option.some.inj h⟩
  · rintro ⟨jobinfo, fields, hjobinfo, hfields, hharmless, rfl⟩
    have hmessage := readMessage_eq_some_iff.mpr ⟨hharmless, rfl⟩
    refine ⟨jobinfo, asText_eq_some_iff.mpr hjobinfo, ?_⟩
    rw [hhost, Option.bind_eq_bind, Option.bind_some, asHash_eq_some_iff.mpr hfields,
      Option.bind_some]
    exact Option.bind_eq_some_iff.mpr ⟨_, hmessage, rfl⟩

theorem childActions_of_accepted {child : Val} {entries tags : Record} {name host : Text}
    (h : Accepted child entries tags name host) (rb : Runtime) (time : Int) :
    childActions rb time child = namedActions rb time entries name := by
  have hname : hasKey entries "name".toList = true := by
    refine hasKey_of_fetch_ne ?_
    rw [h.named]
    exact Val.noConfusion
  simp only [h.isHash, childActions, h.hasFields, hname, Bool.and_self, if_true, h.named, h.listed]

theorem notFatal_iff_complete {child : Val} {entries tags : Record} {name host : Text}
    (h : Accepted child entries tags name host) (rb : Runtime) (time : Int) :
    NotFatal rb time child ↔ Complete entries tags name host := by
  rw [notFatal_iff_allEmitted, childActions_of_accepted h, namedActions_emitted_iff]
  constructor
  · rintro ⟨c, hread, htyped⟩
    obtain ⟨jobinfo, fields, hjobinfo, hfields, hharmless, rfl⟩ :=
      (readChild_of_accepted h c).mp hread
    exact ⟨jobinfo, fields, hjobinfo, hfields, hharmless, htyped⟩
  · rintro ⟨jobinfo, fields, hjobinfo, hfields, hharmless, htyped⟩
    exact ⟨_, (readChild_of_accepted h _).mpr
      ⟨jobinfo, fields, hjobinfo, hfields, hharmless, rfl⟩, htyped⟩

theorem childActions_of_not_hasJob {child : Val} {entries tags : Record} {name host : Text}
    (h : Accepted child entries tags name host) (hcomplete : Complete entries tags name host)
    (hjob : ¬HasJob tags) (rb : Runtime) (time : Int) : childActions rb time child = [] := by
  obtain ⟨jobinfo, fields, hjobinfo, hfields, hharmless, -⟩ := hcomplete
  have hread := (readChild_of_accepted h _).mpr
    ⟨jobinfo, fields, hjobinfo, hfields, hharmless, rfl⟩
  have hnone : jobOf jobinfo = none := by
    rw [← Option.not_isSome_iff_eq_none]
    exact fun hsome => hjob ⟨jobinfo, hjobinfo, hsome⟩
  rw [childActions_of_accepted h, namedActions, hread]
  simp only [Child.actions, hnone]

/-- A child with an accepted name and a host is passed over exactly if nothing is missing
that the plugin relies on. -/
theorem skips_iff {child : Val} {entries tags : Record} {name host : Text}
    (h : Accepted child entries tags name host) (rb : Runtime) (time : Int) :
    Skips rb time child tags ↔ Complete entries tags name host := by
  constructor
  · rintro ⟨hfatal, -⟩
    exact (notFatal_iff_complete h rb time).mp hfatal
  · intro hcomplete
    refine ⟨(notFatal_iff_complete h rb time).mpr hcomplete, fun hjob => ?_⟩
    exact noRecord_of_nil (childActions_of_not_hasJob h hcomplete hjob rb time)

/-- A child of a node with the tags of `jobinfo` given. -/
def nodeChild (name : Text) (jobinfo : Record) (fields : Record) : Record :=
  [("name".toList, .str name), ("fields".toList, .hash fields),
    ("tags".toList, .hash (("host".toList, .str "n1".toList) :: jobinfo))]

theorem accepted_nodeChild {name : Text} (hname : name ∈ names) (jobinfo fields : Record) :
    Accepted (.hash (nodeChild name jobinfo fields)) (nodeChild name jobinfo fields)
      (("host".toList, .str "n1".toList) :: jobinfo) name "n1".toList :=
  ⟨rfl, rfl, rfl, hname, rfl, rfl⟩

def idleTag : Record := [("jobinfo".toList, .str "idle".toList)]

theorem skips_iff_idle :
    Skips integerRuntime 0 (.hash (nodeChild "mem".toList idleTag []))
        (("host".toList, .str "n1".toList) :: idleTag) ↔
      Complete (nodeChild "mem".toList idleTag []) (("host".toList, .str "n1".toList) :: idleTag)
        "mem".toList "n1".toList :=
  skips_iff (accepted_nodeChild (by decide) idleTag []) integerRuntime 0

def jobTag : Record := [("jobinfo".toList, .str "jobid=7 name=a user=u".toList)]

/-- Neither a child without `jobinfo` nor a mem child without `used_percent` is skipped. -/
theorem not_skips_missing :
    ¬Skips integerRuntime 0 (.hash (nodeChild "cpu".toList [] []))
        [("host".toList, .str "n1".toList)] ∧
      ¬Skips integerRuntime 0 (.hash (nodeChild "mem".toList jobTag []))
        (("host".toList, .str "n1".toList) :: jobTag) := by
  constructor
  · rintro ⟨hfatal, -⟩
    obtain ⟨jobinfo, fields, hjobinfo, -⟩ :=
      (notFatal_iff_complete (accepted_nodeChild (by decide) [] []) _ _).mp hfatal
    exact Val.noConfusion hjobinfo
  · rintro ⟨hfatal, -⟩
    obtain ⟨jobinfo, fields, hjobinfo, hfields, -, htyped⟩ :=
      (notFatal_iff_complete (accepted_nodeChild (by decide) jobTag []) _ _).mp hfatal
    obtain rfl := Val.str.inj hjobinfo
    obtain rfl := Val.hash.inj hfields
    have hmem := (htyped (by decide +kernel)).mem (by decide +kernel)
    exact absurd hmem (by decide +kernel)

end DaapLog.SkippedChildren

import DaapLog.SkippedChildren

/-!
What a telegraf child is expanded to. The name of the child decides it, unless the first
word of a mesh message takes the place of the name.
-/

namespace DaapLog.ChildExpansions

open DaapLog.CStrings
open DaapLog.OrderedHash
open DaapLog.LinearPatterns
open DaapLog.RubyValues
open DaapLog.PluginActions
open DaapLog.PluginChildren
open DaapLog.ChildRecords
open DaapLog.ErrorIsolation
open DaapLog.SkippedChildren

inductive Expansion
  | infiniband
  | cpu
  | mem
  | temp
  | snap
  | preTeam
  | preTeamHpl
  | plain
  deriving DecidableEq

/-- The expansion of the children with a name. -/
def expansionOf (name : Text) : Expansion :=
  if name = "infiniband".toList then .infiniband
  else if name = "cpu".toList then .cpu
  else if name = "mem".toList then .mem
  else if name = "temp".toList then .temp
  else if name = "snap_pavilion_parser".toList then .snap
  else if name = "pre_team_pavilion_parser".toList then .preTeam
  else if name = "pre_team_pavilion_hpl_parser".toList then .preTeamHpl
  else .plain

def HasMetric (metric : Text) (record : Record) : Prop :=
  get record "metric".toList = some (.str metric)

/-- The metric, with the mark of a flag test or without. -/
def Measures (what : Text) (record : Record) : Prop :=
  HasMetric what record ∨ HasMetric ("flag_daap_".toList ++ what) record

/-- The metrics that the message of a child gives its record. -/
def messageMetrics : List Text :=
  ["heartbeat", "job_state", "job_duration", "mesh_info", "zones"].map String.toList

/-- The actions are those of an expansion. -/
def Applied (actions : List Action) : Expansion → Prop
  | .infiniband => ∃ records : List Record, actions = records.map .push ∧ records.length = 18 ∧
      ∀ record ∈ records, Measures "infiniband_errors".toList record ∨
        Measures "infiniband_metrics".toList record
  | .cpu => ∃ records : List Record, actions = records.map .push ∧ records.length = 10 ∧
      ∀ record ∈ records, Measures "cpu_usage".toList record
  | .mem => ∃ job_key time new_mem record, actions = [.sample job_key time new_mem record] ∧
      Measures "mem_usage".toList record
  | .temp => ∃ record, actions = [.push record] ∧ Measures "temp".toList record
  | .snap => actions = [] ∨ actions = [.raise] ∨
      ∃ record, actions = [.push record] ∧ HasMetric "snap_pavilion_parser".toList record
  | .preTeam => ∃ record, actions = [.push record] ∧ HasMetric "pre_team".toList record
  | .preTeamHpl => ∃ record, actions = [.push record] ∧ HasMetric "pre_team_hpl".toList record
  | .plain => ∃ record, actions = [.push record] ∧
      (get record "metric".toList = none ∨ ∃ what ∈ messageMetrics, Measures what record)

/-- The metrics of an expansion that pushes records. -/
def metricsOf : Expansion → List (Option Text)
  | .infiniband => (["infiniband_errors", "flag_daap_infiniband_errors", "infiniband_metrics",
      "flag_daap_infiniband_metrics"].map String.toList).map some
  | .cpu => (["cpu_usage", "flag_daap_cpu_usage"].map String.toList).map some
  | .mem => []
  | .temp => (["temp", "flag_daap_temp"].map String.toList).map some
  | .snap => [some "snap_pavilion_parser".toList]
  | .preTeam => [some "pre_team".toList]
  | .preTeamHpl => [some "pre_team_hpl".toList]
  | .plain => none :: (messageMetrics.flatMap fun what =>
      [some what, some ("flag_daap_".toList ++ what)])

/-- A record that an expansion pushes has one of its metrics. -/
theorem metric_of_applied {actions : List Action} {e : Expansion} (h : Applied actions e)
    {record : Record} (hrecord : .push record ∈ actions) :
    ∃ metric ∈ metricsOf e, get record "metric".toList = metric.map Val.str := by
  have hmeasures {what : Text} (h : Measures what record)
      (hmem : some what ∈ metricsOf e ∧ some ("flag_daap_".toList ++ what) ∈ metricsOf e) :
      ∃ metric ∈ metricsOf e, get record "metric".toList = metric.map Val.str := by
    rcases h with h | h
    · exact ⟨_, hmem.1, h⟩
    · exact ⟨_, hmem.2, h⟩
  cases e with
  | infiniband =>
      obtain ⟨records, rfl, -, hall⟩ := h
      obtain ⟨r, hr, heq⟩ := List.mem_map.mp hrecord
      obtain rfl := Action.push.inj heq
      rcases hall r hr with h | h
      · exact hmeasures h (by decide)
      · exact hmeasures h (by decide)
  | cpu =>
      obtain ⟨records, rfl, -, hall⟩ := h
      obtain ⟨r, hr, heq⟩ := List.mem_map.mp hrecord
      obtain rfl := Action.push.inj heq
      exact hmeasures (hall r hr) (by decide)
  | mem =>
      obtain ⟨job_key, time, new_mem, r, rfl, -⟩ := h
      cases List.mem_singleton.mp hrecord
  | temp =>
      obtain ⟨r, rfl, hmetric⟩ := h
      obtain rfl := Action.push.inj (List.mem_singleton.mp hrecord)
      exact hmeasures hmetric (by decide)
  | snap =>
      rcases h with rfl | rfl | ⟨r, rfl, hmetric⟩
      · exact absurd hrecord List.not_mem_nil
      · cases List.mem_singleton.mp hrecord
      · obtain rfl := Action.push.inj (List.mem_singleton.mp hrecord)
        exact ⟨_, List.mem_singleton_self _, hmetric⟩
  | preTeam =>
      obtain ⟨r, rfl, hmetric⟩ := h
      obtain rfl := Action.push.inj (List.mem_singleton.mp hrecord)
      exact ⟨_, List.mem_singleton_self _, hmetric⟩
  | preTeamHpl =>
      obtain ⟨r, rfl, hmetric⟩ := h
      obtain rfl := Action.push.inj (List.mem_singleton.mp hrecord)
      exact ⟨_, List.mem_singleton_self _, hmetric⟩
  | plain =>
      obtain ⟨r, rfl, hmetric⟩ := h
      obtain rfl := Action.push.inj (List.mem_singleton.mp hrecord)
      rcases hmetric with hmetric | ⟨what, hwhat, hmetric⟩
      · exact ⟨none, List.mem_cons_self, hmetric⟩
      · refine hmeasures hmetric ⟨List.mem_cons_of_mem _ ?_, List.mem_cons_of_mem _ ?_⟩
        · exact List.mem_flatMap.mpr ⟨what, hwhat, by simp⟩
        · exact List.mem_flatMap.mpr ⟨what, hwhat, by simp⟩

theorem metricsOf_disjoint {e e' : Expansion} {metric : Option Text} (h : metric ∈ metricsOf e)
    (h' : metric ∈ metricsOf e') : e = e' := by
  have hall : ∀ e e' : Expansion, e ≠ e' → ∀ metric ∈ metricsOf e, metric ∉ metricsOf e' := by
    intro e e'
    cases e <;> cases e' <;> decide
  by_contra hne
  exact hall e e' hne metric h h'

theorem exists_push_of_applied {actions : List Action} {e : Expansion} (h : Applied actions e) :
    (∃ record, .push record ∈ actions) ∨ (∃ k t x r, actions = [.sample k t x r] ∧ e = .mem) ∨
      ((actions = [] ∨ actions = [.raise]) ∧ e = .snap) := by
  cases e with
  | infiniband =>
      obtain ⟨records, rfl, hlength, -⟩ := h
      obtain ⟨record, rest, rfl⟩ := List.exists_cons_of_length_eq_add_one hlength
      exact .inl ⟨record, List.mem_cons_self⟩
  | cpu =>
      obtain ⟨records, rfl, hlength, -⟩ := h
      obtain ⟨record, rest, rfl⟩ := List.exists_cons_of_length_eq_add_one hlength
      exact .inl ⟨record, List.mem_cons_self⟩
  | mem =>
      obtain ⟨k, t, x, r, rfl, -⟩ := h
      exact .inr (.inl ⟨k, t, x, r, rfl, rfl⟩)
  | snap =>
      rcases h with rfl | rfl | ⟨record, rfl, -⟩
      · exact .inr (.inr ⟨.inl rfl, rfl⟩)
      · exact .inr (.inr ⟨.inr rfl, rfl⟩)
      · exact .inl ⟨record, List.mem_singleton_self _⟩
  | temp =>
      obtain ⟨record, rfl, -⟩ := h
      exact .inl ⟨record, List.mem_singleton_self _⟩
  | preTeam =>
      obtain ⟨record, rfl, -⟩ := h
      exact .inl ⟨record, List.mem_singleton_self _⟩
  | preTeamHpl =>
      obtain ⟨record, rfl, -⟩ := h
      exact .inl ⟨record, List.mem_singleton_self _⟩
  | plain =>
      obtain ⟨record, rfl, -⟩ := h
      exact .inl ⟨record, List.mem_singleton_self _⟩

/-- No list of actions is one of two expansions. -/
theorem applied_unique {actions : List Action} {e e' : Expansion} (h : Applied actions e)
    (h' : Applied actions e') : e = e' := by
  rcases exists_push_of_applied h with ⟨record, hrecord⟩ | ⟨k, t, x, r, rfl, rfl⟩ |
    ⟨hsnap, rfl⟩
  · obtain ⟨metric, hmetric, hget⟩ := metric_of_applied h hrecord
    obtain ⟨metric', hmetric', hget'⟩ := metric_of_applied h' hrecord
    have heq : metric = metric' := by
      have hinj : Function.Injective (Option.map Val.str) :=
        Option.map_injective fun _ _ => Val.str.inj
      exact hinj (hget.symm.trans hget')
    exact metricsOf_disjoint hmetric (heq ▸ hmetric')
  · rcases exists_push_of_applied h' with ⟨record, hrecord⟩ | ⟨_, _, _, _, -, rfl⟩ | ⟨hsnap, -⟩
    · cases List.mem_singleton.mp hrecord
    · rfl
    · simp at hsnap
  · rcases exists_push_of_applied h' with ⟨record, hrecord⟩ | ⟨_, _, _, _, rfl, -⟩ | ⟨-, rfl⟩
    · rcases hsnap with rfl | rfl
      · exact absurd hrecord List.not_mem_nil
      · cases List.mem_singleton.mp hrecord
    · simp at hsnap
    · rfl

section Actions

variable (c : Child)

theorem measures_of_metric {what : Text} {record : Record}
    (h : get record "metric".toList = some (c.metric what)) : Measures what record := by
  rw [Child.metric] at h
  split at h
  · exact .inr h
  · exact .inl h

theorem measures_expand {what : Text} (items : List Text) {dup : Text → Record → Record}
    (hdup : ∀ item r, get (dup item r) "metric".toList = get r "metric".toList) :
    ∃ records : List Record, c.expand what items dup = records.map .push ∧
      records.length = items.length ∧ ∀ record ∈ records, Measures what record := by
  refine ⟨items.map fun item => dup item (c.setMetric what c.newRec), ?_, List.length_map _, ?_⟩
  · rw [Child.expand, List.map_map]
    rfl
  · intro record hrecord
    obtain ⟨item, -, rfl⟩ := List.mem_map.mp hrecord
    refine measures_of_metric c ?_
    rw [hdup, get_setMetric_metric]

theorem infiniband_applied : Applied c.infiniband .infiniband := by
  obtain ⟨errors, herrors, hcount, hmeasures⟩ := measures_expand c _ (infinibandRecord_metric c)
  obtain ⟨metrics, hmetrics, hcount', hmeasures'⟩ :=
    measures_expand c _ (infinibandRecord_metric c)
  refine ⟨errors ++ metrics, ?_, ?_, ?_⟩
  · rw [Child.infiniband, herrors, hmetrics, List.map_append]
  · rw [List.length_append, hcount, hcount']
    rfl
  · intro record hrecord
    rcases List.mem_append.mp hrecord with h | h
    · exact .inl (hmeasures record h)
    · exact .inr (hmeasures' record h)

theorem cpu_applied : Applied c.cpu .cpu := by
  refine measures_expand c _ fun item r => ?_
  simp (disch := decide) only [get_set_of_ne]

theorem mem_applied (job_key : Text) (time : Int) : Applied (c.mem job_key time) .mem := by
  refine ⟨_, _, _, _, rfl, measures_of_metric c ?_⟩
  simp (disch := decide) only [get_set_of_ne, get_setMetric_metric]

theorem temp_applied : Applied [.push c.temp] .temp := by
  refine ⟨_, rfl, measures_of_metric c ?_⟩
  rw [Child.temp]
  simp (disch := decide) only [get_set_of_ne, get_setMetric_metric]

theorem snap_applied (rb : Runtime) : Applied (c.snapActions rb) .snap := by
  rw [Child.snapActions]
  split
  · cases hsnap : c.snap rb with
    | none => exact .inr (.inl rfl)
    | some record => exact .inr (.inr ⟨record, rfl, snap_metric rb c hsnap⟩)
  · exact .inl rfl

theorem plain_applied (hteam : c.finalName ≠ "pre_team_pavilion_parser".toList)
    (hhpl : c.finalName ≠ "pre_team_pavilion_hpl_parser".toList) :
    Applied [.push c.newRec] .plain := by
  have hmetric := newRec_metric c
  rw [if_neg hteam, if_neg hhpl, messageMetric] at hmetric
  refine ⟨_, rfl, ?_⟩
  split at hmetric
  · exact .inr ⟨_, by decide, measures_of_metric c hmetric⟩
  split at hmetric
  · exact .inr ⟨_, by decide, measures_of_metric c hmetric⟩
  split at hmetric
  · exact .inr ⟨_, by decide, measures_of_metric c hmetric⟩
  split at hmetric
  · exact .inr ⟨_, by decide, measures_of_metric c hmetric⟩
  split at hmetric
  · exact .inr ⟨_, by decide, measures_of_metric c hmetric⟩
  split at hmetric
  · exact .inr ⟨_, by decide, measures_of_metric c hmetric⟩
  · exact .inl hmetric

theorem newRec_applied (hlisted : c.finalName ∉ (["infiniband", "cpu", "mem", "temp",
    "snap_pavilion_parser"].map String.toList)) :
    Applied [.push c.newRec] (expansionOf c.finalName) := by
  simp only [List.map_cons, List.map_nil, List.mem_cons, List.not_mem_nil, or_false,
    not_or] at hlisted
  obtain ⟨hinfiniband, hcpu, hmem, htemp, hsnap⟩ := hlisted
  have hmetric := newRec_metric c
  rw [expansionOf, if_neg hinfiniband, if_neg hcpu, if_neg hmem, if_neg htemp, if_neg hsnap]
  split at hmetric
  · next hteam =>
      rw [if_pos hteam]
      exact ⟨_, rfl, hmetric⟩
  · next hteam =>
      rw [if_neg hteam]
      split at hmetric
      · next hhpl =>
          rw [if_pos hhpl]
          exact ⟨_, rfl, hmetric⟩
      · next hhpl =>
          rw [if_neg hhpl]
          exact plain_applied c hteam hhpl

/-- The expansion of a child with a job is that of the name it ends up with. -/
theorem actions_applied (rb : Runtime) (time : Int) (hjob : (jobOf c.jobinfo).isSome) :
    Applied (c.actions rb time) (expansionOf c.finalName) := by
  obtain ⟨⟨jobid, job_name⟩, hjob⟩ := Option.isSome_iff_exists.mp hjob
  rw [Child.actions, hjob]
  simp only
  by_cases hinfiniband : c.finalName = "infiniband".toList
  · rw [if_pos hinfiniband, hinfiniband]
    exact infiniband_applied c
  by_cases hcpu : c.finalName = "cpu".toList
  · rw [if_neg hinfiniband, if_pos hcpu, hcpu]
    exact cpu_applied c
  by_cases hmem : c.finalName = "mem".toList
  · rw [if_neg hinfiniband, if_neg hcpu, if_pos hmem, hmem]
    exact mem_applied c _ time
  by_cases htemp : c.finalName = "temp".toList
  · rw [if_neg hinfiniband, if_neg hcpu, if_neg hmem, if_pos htemp, htemp]
    exact temp_applied c
  rw [if_neg hinfiniband, if_neg hcpu, if_neg hmem, if_neg htemp]
  by_cases hsnap : c.finalName = "snap_pavilion_parser".toList
  · rw [if_pos hsnap, hsnap]
    exact snap_applied c rb
  · rw [if_neg hsnap]
    refine newRec_applied c ?_
    simp only [List.map_cons, List.map_nil, List.mem_cons, List.not_mem_nil, or_false, not_or]
    exact ⟨hinfiniband, hcpu, hmem, htemp, hsnap⟩

/-- A mesh message of a flag test begins with a word that stands for the same expansion
as the name of the child. -/
def FirstWordAgrees : Prop :=
  ∀ message parts, c.message = some message → strstr message "mesh".toList →
    isFlag c.jobinfo → firstMatch meshPattern message = some parts →
      expansionOf (capture meshPattern parts 1) = expansionOf c.name

theorem finalName_of_not_isMesh (h : ¬c.isMesh) : c.finalName = c.name := by
  rw [Child.finalName, Child.mesh, if_neg h]
  rfl

theorem finalName_of_isMesh (h : c.isMesh) {message : Text} (hmessage : c.message = some message) :
    c.finalName =
      ((firstMatch meshPattern message).map fun parts => capture meshPattern parts 1).getD
        c.name := by
  rw [Child.finalName, Child.mesh, if_pos h, hmessage, Option.bind_some, captures]
  cases firstMatch meshPattern message with
  | none => rfl
  | some parts => rfl

theorem isMesh_iff :
    c.isMesh ↔ ∃ message, c.message = some message ∧ strstr message "mesh".toList ∧
      isFlag c.jobinfo := by
  rw [Child.isMesh, Child.mentions, Bool.and_eq_true]
  cases c.message with
  | none => simp
  | some message => simp

theorem finalName_agrees_iff :
    expansionOf c.finalName = expansionOf c.name ↔ FirstWordAgrees c := by
  by_cases hmesh : c.isMesh
  · obtain ⟨message, hmessage, hword, hflag⟩ := (isMesh_iff c).mp hmesh
    rw [finalName_of_isMesh c hmesh hmessage]
    constructor
    · intro hagrees message' parts hmessage' _ _ hparts
      obtain rfl := Option.some.inj (hmessage.symm.trans hmessage')
      rw [hparts] at hagrees
      exact hagrees
    · intro hagrees
      cases hparts : firstMatch meshPattern message with
      | none => rfl
      | some parts => exact hagrees message parts hmessage hword hflag hparts
  · rw [finalName_of_not_isMesh c hmesh]
    refine iff_of_true rfl fun message parts hmessage hword hflag _ => ?_
    exact absurd ((isMesh_iff c).mpr ⟨message, hmessage, hword, hflag⟩) hmesh

end Actions

/-- The name of the child alone decides what it is expanded to, and a child named `daap`
has one record. -/
def NameDecides (actions : List Action) (name : Text) : Prop :=
  Applied actions (expansionOf name) ∧
    (name = "daap".toList → ∃ record, actions = [.push record])

theorem nameDecides_iff_applied (actions : List Action) (name : Text) :
    NameDecides actions name ↔ Applied actions (expansionOf name) := by
  refine ⟨And.left, fun h => ⟨h, ?_⟩⟩
  rintro rfl
  obtain ⟨record, hrecord, -⟩ := h
  exact ⟨record, hrecord⟩

/-- For a child with a job: its name decides exactly if no mesh message of a flag test
begins with a word of another expansion. -/
theorem nameDecides_iff {child : Val} {entries tags : Record} {name host : Text}
    (h : Accepted child entries tags name host) {c : Child}
    (hread : readChild entries name = some c) (hjob : (jobOf c.jobinfo).isSome) (rb : Runtime)
    (time : Int) : NameDecides (childActions rb time child) name ↔ FirstWordAgrees c := by
  have hname : c.name = name := by
    obtain ⟨jobinfo, fields, -, -, -, rfl⟩ := (readChild_of_accepted h c).mp hread
    rfl
  have happlied := actions_applied c rb time hjob
  rw [nameDecides_iff_applied, childActions_of_accepted h, namedActions, hread,
    ← finalName_agrees_iff, hname]
  constructor
  · intro hdecides
    exact applied_unique happlied hdecides
  · intro hagrees
    rw [← hagrees]
    exact happlied

def flagTag : Record := [("jobinfo".toList, .str "jobid=7 name=flag_perf_tests_ user=u".toList)]

/-- A message of a flag test as the fields of a child of a node. -/
def flagChild (message : Text) : Record :=
  nodeChild "daap".toList flagTag [("message".toList, .str message)]

def flagParts (message : Text) : Child :=
  ⟨"daap".toList, ("host".toList, .str "n1".toList) :: flagTag,
    [("message".toList, .str message)], "jobid=7 name=flag_perf_tests_ user=u".toList,
    "n1".toList, .nil, some message⟩

theorem readChild_flagChild (message : Text) :
    readChild (flagChild message) "daap".toList = some (flagParts message) := rfl

theorem jobOf_flagParts (message : Text) : (jobOf (flagParts message).jobinfo).isSome := by
  show (jobOf "jobid=7 name=flag_perf_tests_ user=u").isSome
  decide +kernel

theorem nameDecides_iff_flagChild :
    NameDecides (childActions integerRuntime 0 (.hash (flagChild "mesh 1 2 3 4 5 6 7 8 9".toList)))
        "daap".toList ↔
      FirstWordAgrees (flagParts "mesh 1 2 3 4 5 6 7 8 9".toList) :=
  nameDecides_iff (accepted_nodeChild (by decide) flagTag _) (readChild_flagChild _)
    (jobOf_flagParts _) integerRuntime 0

/-- The message of a child named `daap` makes it a cpu child with ten records. -/
theorem not_nameDecides_flagChild :
    ¬NameDecides (childActions integerRuntime 0 (.hash (flagChild "cpu mesh 2 3 4 5 6 7 8 9")))
      "daap".toList := by
  rintro ⟨-, hone⟩
  obtain ⟨record, hrecord⟩ := hone rfl
  have hten : (childActions integerRuntime 0
      (.hash (flagChild "cpu mesh 2 3 4 5 6 7 8 9"))).length = 10 := by
    decide +kernel
  rw [hrecord] at hten
  exact absurd hten (by simp)

end DaapLog.ChildExpansions

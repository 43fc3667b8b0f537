import DaapLog.PluginProcess

/-!
The records of telegraf children: their time is that of the child, and only those about
the state of a job are emitted with a time as text.
-/

namespace DaapLog.ChildRecords

open DaapLog.CStrings
open DaapLog.OrderedHash
open DaapLog.LinearPatterns
open DaapLog.RubyValues
open DaapLog.PluginActions
open DaapLog.PluginChildren
open DaapLog.PluginProcess

theorem captures_keys {pattern : Pattern} {keys : List Text} {text : Text}
    {found : Hash Text Text} (h : captures pattern keys text = some found) :
    ∀ e ∈ found, e.1 ∈ keys := by
  obtain ⟨parts, -, rfl⟩ := Option.map_eq_some_iff.mp h
  intro e he
  obtain ⟨key, hkey, rfl⟩ := List.mem_map.mp he
  exact List.fst_mem_of_mem_zipIdx hkey

theorem getD_captures_keys (pattern : Pattern) (keys : List Text) (text : Option Text) :
    ∀ e ∈ (text.bind (captures pattern keys)).getD [], e.1 ∈ keys := by
  cases h : text.bind (captures pattern keys) with
  | none => simp
  | some found =>
      obtain ⟨t, -, ht⟩ := Option.bind_eq_some_iff.mp h
      exact captures_keys ht

def jobKeys : List Text :=
  ["jobid", "job_name", "user", "ranks", "version", "probsize"].map String.toList

theorem jobInfo_keys (jobinfo : Text) : ∀ e ∈ jobInfo jobinfo, e.1 ∈ jobKeys := by
  have hstep (info : Hash Text Text) (hinfo : ∀ e ∈ info, e.1 ∈ jobKeys) (pattern : Pattern)
      (keys : List Text) (hkeys : ∀ key ∈ keys, key ∈ jobKeys) :
      ∀ e ∈ ((captures pattern keys jobinfo).getD []).foldl
        (fun info e => set info e.1 e.2) info, e.1 ∈ jobKeys := by
    refine forall_key_foldl_set (p := (· ∈ jobKeys)) Prod.fst (fun _ e => e.2) ?_ hinfo
    intro e he
    exact hkeys _ (getD_captures_keys pattern keys (some jobinfo) e he)
  exact hstep _ (hstep _ (hstep [] (by simp) _ _ (by decide)) _ _ (by decide)) _ _ (by decide)

theorem get_addTexts {keys : List Text} {key : Text} (hkey : key ∉ keys)
    {entries : Hash Text Text} (hentries : ∀ e ∈ entries, e.1 ∈ keys) (new_rec : Record) :
    get (addTexts entries new_rec) key = get new_rec key := by
  refine get_foldl_set Prod.fst (fun _ e => Val.str e.2) ?_ new_rec
  rintro e he rfl
  exact hkey (hentries e he)

theorem get_copyTags (c : Child) {items : List Text} {key : Text} (hkey : key ∉ items)
    (new_rec : Record) : get (c.copyTags items new_rec) key = get new_rec key := by
  refine get_foldl_set id _ ?_ new_rec
  rintro item hitem rfl
  exact hkey hitem

theorem get_mpirank (c : Child) {key : Text} (hkey : key ≠ "mpirank".toList) (new_rec : Record) :
    get (c.mpirank new_rec) key = get new_rec key := by
  rw [Child.mpirank]
  split
  · exact get_set_of_ne hkey _ _
  · rfl

theorem get_addJobInfo (c : Child) {key : Text} (hkey : key ∉ jobKeys) (new_rec : Record) :
    get (addTexts (jobInfo c.jobinfo) new_rec) key = get new_rec key :=
  get_addTexts hkey (jobInfo_keys c.jobinfo) new_rec

theorem get_setMetric_of_ne (c : Child) {key : Text} (hkey : key ≠ "metric".toList)
    (what : Text) (new_rec : Record) :
    get (c.setMetric what new_rec) key = get new_rec key :=
  get_set_of_ne hkey _ _

theorem get_setMetric_metric (c : Child) (what : Text) (new_rec : Record) :
    get (c.setMetric what new_rec) "metric".toList = some (c.metric what) :=
  get_set_self _ _ _

section Timestamp

theorem zones_timestamp (c : Child) (new_rec : Record) :
    get (c.zones new_rec) "timestamp".toList = get new_rec "timestamp".toList := by
  rw [Child.zones]
  split
  · rw [get_addTexts (by decide) (getD_captures_keys _ _ _), get_setMetric_of_ne c (by decide)]
  · rfl

theorem preTeam_timestamp (c : Child) (new_rec : Record) :
    get (c.preTeam new_rec) "timestamp".toList = get new_rec "timestamp".toList := by
  rw [Child.preTeam]
  split
  · rw [get_copyTags c (by decide), get_set_of_ne (by decide)]
  · split
    · rw [get_copyTags c (by decide), get_set_of_ne (by decide)]
    · rfl

theorem newRec_timestamp (c : Child) :
    get c.newRec "timestamp".toList = some c.timestamp := by
  rw [Child.newRec, preTeam_timestamp, zones_timestamp, get_mpirank c (by decide),
    get_addJobInfo c (by decide)]
  exact get_set_self _ _ _

end Timestamp

section Metric

/-- What the message says about the metric, unless it is about a mesh or zones. -/
def messageMetric (c : Child) : Option Val :=
  if c.mentions "__daap_jobduration:".toList then some (c.metric "job_duration".toList)
  else if c.isMessage "__daap_jobend".toList then some (c.metric "job_state".toList)
  else if c.isMessage "__daap_jobstart".toList then some (c.metric "job_state".toList)
  else if c.isMessage "__daap_heartbeat".toList then some (c.metric "heartbeat".toList)
  else none

theorem heartbeat_metric (c : Child) :
    get (c.heartbeat []) "metric".toList =
      if c.isMessage "__daap_heartbeat".toList then some (c.metric "heartbeat".toList)
      else none := by
  rw [Child.heartbeat]
  split
  · simp (disch := decide) only [get_set_of_ne, get_setMetric_metric]
  · rfl

theorem jobState_metric (c : Child) (new_rec : Record) :
    get (c.jobState new_rec) "metric".toList =
      if c.isMessage "__daap_jobend".toList then some (c.metric "job_state".toList)
      else if c.isMessage "__daap_jobstart".toList then some (c.metric "job_state".toList)
      else get new_rec "metric".toList := by
  rw [Child.jobState]
  split
  · simp (disch := decide) only [get_set_of_ne, get_setMetric_metric]
  · split
    · simp (disch := decide) only [get_set_of_ne, get_setMetric_metric]
    · rfl

theorem jobDuration_metric (c : Child) (new_rec : Record) :
    get (c.jobDuration new_rec) "metric".toList =
      if c.mentions "__daap_jobduration:".toList then some (c.metric "job_duration".toList)
      else get new_rec "metric".toList := by
  rw [Child.jobDuration]
  split
  · split
    · exact get_setMetric_metric c _ _
    · next found hfound =>
        obtain ⟨message, -, hmessage⟩ := Option.bind_eq_some_iff.mp hfound
        have hkeys := captures_keys hmessage
        rw [get_foldl_set Prod.fst (fun _ e => Val.num (RubyStrings.to_i e.2)), get_setMetric_metric]
        intro e he heq
        exact absurd (hkeys e he) (by rw [← heq]; decide)
  · rfl

theorem mesh_keys (c : Child) : ∀ e ∈ c.mesh.getD [], e.1 ∈ meshKeys := by
  rw [Child.mesh]
  split
  · exact getD_captures_keys _ _ _
  · simp

theorem meshInfo_metric (c : Child) (new_rec : Record) :
    get (c.meshInfo new_rec) "metric".toList =
      if c.isMesh then some (c.metric "mesh_info".toList) else get new_rec "metric".toList := by
  rw [Child.meshInfo]
  split
  · rw [get_addTexts (by decide) (mesh_keys c), get_setMetric_metric]
  · rfl

theorem zones_metric (c : Child) (new_rec : Record) :
    get (c.zones new_rec) "metric".toList =
      if c.isZones then some (c.metric "zones".toList) else get new_rec "metric".toList := by
  rw [Child.zones]
  split
  · rw [get_addTexts (by decide) (getD_captures_keys _ _ _), get_setMetric_metric]
  · rfl

theorem preTeam_metric (c : Child) (new_rec : Record) :
    get (c.preTeam new_rec) "metric".toList =
      if c.finalName = "pre_team_pavilion_parser".toList then
        some (.str "pre_team".toList)
      else if c.finalName = "pre_team_pavilion_hpl_parser".toList then
        some (.str "pre_team_hpl".toList)
      else get new_rec "metric".toList := by
  rw [Child.preTeam]
  split
  · rw [get_copyTags c (by decide), get_set_self]
  · split
    · rw [get_copyTags c (by decide), get_set_self]
    · rfl

theorem newRec_metric (c : Child) :
    get c.newRec "metric".toList =
      if c.finalName = "pre_team_pavilion_parser".toList then some (.str "pre_team".toList)
      else if c.finalName = "pre_team_pavilion_hpl_parser".toList then
        some (.str "pre_team_hpl".toList)
      else if c.isZones then some (c.metric "zones".toList)
      else if c.isMesh then some (c.metric "mesh_info".toList)
      else messageMetric c := by
  rw [Child.newRec, preTeam_metric, zones_metric, get_mpirank c (by decide),
    get_addJobInfo c (by decide), Child.common, get_set_of_ne (by decide),
    get_set_of_ne (by decide), meshInfo_metric, jobDuration_metric, jobState_metric,
    heartbeat_metric, messageMetric]

end Metric

section Timed

def isTimedText (metric : Text) : Bool := timedMetrics.any fun word => strstr metric word

theorem isTimed_of_text {m : Record} {metric : Text}
    (h : get m "metric".toList = some (.str metric)) : isTimed m = isTimedText metric := by
  rw [isTimed, h, isTimedText]

theorem isTimed_of_metric (c : Child) (what : Text) (timed : Bool) {m : Record}
    (h : get m "metric".toList = some (c.metric what)) (hwhat : isTimedText what = timed)
    (hflag : isTimedText ("flag_daap_".toList ++ what) = timed) : isTimed m = timed := by
  rw [Child.metric] at h
  rw [isTimed_of_text h]
  split
  · exact hflag
  · exact hwhat

/-- The last word on the metric is a message about the state of the job. -/
def Dated (c : Child) : Prop :=
  (c.mentions "__daap_jobduration:".toList ∨ c.isMessage "__daap_jobend".toList ∨
    c.isMessage "__daap_jobstart".toList) ∧
  ¬c.isMesh ∧ ¬c.isZones ∧ c.finalName ≠ "pre_team_pavilion_parser".toList ∧
  c.finalName ≠ "pre_team_pavilion_hpl_parser".toList

theorem isTimed_newRec_iff (c : Child) : isTimed c.newRec ↔ Dated c := by
  have hmetric := newRec_metric c
  by_cases hteam : c.finalName = "pre_team_pavilion_parser".toList
  · rw [if_pos hteam] at hmetric
    rw [isTimed_of_text hmetric]
    exact iff_of_false (by decide) fun h => h.2.2.2.1 hteam
  by_cases hhpl : c.finalName = "pre_team_pavilion_hpl_parser".toList
  · rw [if_neg hteam, if_pos hhpl] at hmetric
    rw [isTimed_of_text hmetric]
    exact iff_of_false (by decide) fun h => h.2.2.2.2 hhpl
  rw [if_neg hteam, if_neg hhpl] at hmetric
  by_cases hzones : c.isZones
  · rw [if_pos hzones] at hmetric
    rw [isTimed_of_metric c _ false hmetric (by decide) (by decide)]
    exact iff_of_false (by decide) fun h => h.2.2.1 hzones
  by_cases hmesh : c.isMesh
  · rw [if_neg hzones, if_pos hmesh] at hmetric
    rw [isTimed_of_metric c _ false hmetric (by decide) (by decide)]
    exact iff_of_false (by decide) fun h => h.2.1 hmesh
  rw [if_neg hzones, if_neg hmesh, messageMetric] at hmetric
  by_cases hduration : c.mentions "__daap_jobduration:".toList
  · rw [if_pos hduration] at hmetric
    rw [isTimed_of_metric c _ true hmetric (by decide) (by decide)]
    exact iff_of_true rfl ⟨.inl hduration, hmesh, hzones, hteam, hhpl⟩
  by_cases hend : c.isMessage "__daap_jobend".toList
  · rw [if_neg hduration, if_pos hend] at hmetric
    rw [isTimed_of_metric c _ true hmetric (by decide) (by decide)]
    exact iff_of_true rfl ⟨.inr (.inl hend), hmesh, hzones, hteam, hhpl⟩
  by_cases hstart : c.isMessage "__daap_jobstart".toList
  · rw [if_neg hduration, if_neg hend, if_pos hstart] at hmetric
    rw [isTimed_of_metric c _ true hmetric (by decide) (by decide)]
    exact iff_of_true rfl ⟨.inr (.inr hstart), hmesh, hzones, hteam, hhpl⟩
  rw [if_neg hduration, if_neg hend, if_neg hstart] at hmetric
  have hnot : ¬Dated c := fun h => h.1.elim hduration fun h => h.elim hend hstart
  refine iff_of_false ?_ hnot
  split at hmetric
  · rw [isTimed_of_metric c _ false hmetric (by decide) (by decide)]
    decide
  · rw [isTimed, hmetric]
    decide

end Timed

end DaapLog.ChildRecords

import DaapLog.JobIndependence

/-!
The clean-up of `@jobs` at the end of a call: which entries a call leaves.
-/

namespace DaapLog.StaleJobs

open DaapLog.CStrings
open DaapLog.OrderedHash
open DaapLog.RubyValues
open DaapLog.PluginActions
open DaapLog.PluginProcess
open DaapLog.JobIndependence
open DaapLog.MemoryHistory

/-- An entry has a sample of the last half hour. -/
def Fresh (cur_ts : Int) (e : Text × Job) : Prop := cur_ts - e.2.timestamp ≤ 30 * 60

instance (cur_ts : Int) (e : Text × Job) : Decidable (Fresh cur_ts e) :=
  inferInstanceAs (Decidable (_ ≤ _))

/-- `@jobs` as the events of a call leave it. -/
def written (rb : Runtime) (jobs : Hash Text Job) (c : Call) : Hash Text Job :=
  (perform jobs (c.actions rb)).1

/-- Behind a call no stale entry is left, and every fresh one is that the call has written
or has found and not overwritten. -/
structure EvictsStale (rb : Runtime) (jobs : Hash Text Job) (c : Call) : Prop where
  fresh : ∀ e ∈ (process rb c.1 jobs c.2).1, Fresh c.1 e
  written : ∀ e ∈ written rb jobs c, Fresh c.1 e → e ∈ (process rb c.1 jobs c.2).1
  found : ∀ e ∈ jobs, (∀ action ∈ c.actions rb, sampleKey action ≠ some e.1) → Fresh c.1 e →
    e ∈ (process rb c.1 jobs c.2).1

section Entries

variable {jobs : Hash Text Job} {e : Text × Job}

theorem mem_set_of_ne {job_key : Text} (hmem : e ∈ jobs) (hne : e.1 ≠ job_key) (job : Job) :
    e ∈ set jobs job_key job := by
  rw [OrderedHash.set]
  split
  · exact List.mem_map.mpr ⟨e, hmem, if_neg hne⟩
  · exact List.mem_append_left _ hmem

theorem mem_perform_of_mem {actions : List Action} (hmem : e ∈ jobs)
    (hkey : ∀ action ∈ actions, sampleKey action ≠ some e.1) : e ∈ (perform jobs actions).1 := by
  induction actions generalizing jobs with
  | nil => exact hmem
  | cons action actions ih =>
      rw [List.forall_mem_cons] at hkey
      cases action with
      | push new_rec => exact ih hmem hkey.2
      | sample job_key time new_mem dup_rec =>
          have hne : e.1 ≠ job_key := fun h => hkey.1 (congrArg some h.symm)
          rw [perform]
          cases new_mem.asNum with
          | none => exact mem_set_of_ne hmem hne _
          | some x => exact ih (mem_set_of_ne hmem hne _) hkey.2
      | raise => exact hmem

theorem mem_cleanJobs {cur_ts : Int} : e ∈ cleanJobs cur_ts jobs ↔ e ∈ jobs ∧ Fresh cur_ts e := by
  rw [cleanJobs, List.mem_filter, Fresh]
  simp

end Entries

section Calls

variable {rb : Runtime} {jobs : Hash Text Job} {c : Call} {out : List (Val × Record)}

theorem ne_nil_of_perform {actions : List Action} {metrics : List Record}
    (hactions : actions ≠ []) (h : (perform jobs actions).2 = some metrics) : metrics ≠ [] := by
  obtain ⟨hsucceeds, rfl⟩ := (perform_eq_some_iff jobs actions metrics).mp h
  obtain ⟨action, rest, rfl⟩ := List.exists_cons_of_ne_nil hactions
  cases action with
  | push new_rec => exact List.cons_ne_nil _ _
  | sample job_key time new_mem dup_rec => exact List.cons_ne_nil _ _
  | raise => exact absurd (hsucceeds _ List.mem_cons_self) not_false

theorem process_of_actions (h : (process rb c.1 jobs c.2).2 = some out)
    (hactions : c.actions rb ≠ []) :
    (process rb c.1 jobs c.2).1 = cleanJobs c.1 (written rb jobs c) := by
  cases hmetrics : (perform jobs (c.actions rb)).2 with
  | none =>
      have hperform : perform jobs (c.2.flatMap (eventActions rb)) = (written rb jobs c, none) :=
        Prod.ext rfl hmetrics
      rw [process, hperform] at h
      exact absurd h (Option.some_ne_none out).symm
  | some metrics =>
      have hperform :
          perform jobs (c.2.flatMap (eventActions rb)) = (written rb jobs c, some metrics) :=
        Prod.ext rfl hmetrics
      have hne : metrics.length ≠ 0 := fun hzero =>
        ne_nil_of_perform hactions hmetrics (List.length_eq_zero_iff.mp hzero)
      rw [process, hperform] at h ⊢
      dsimp only at h ⊢
      rw [send, if_neg hne] at h ⊢
      cases hout : metrics.mapM (stampRecord rb) with
      | none =>
          rw [hout] at h
          exact absurd h (Option.some_ne_none out).symm
      | some stamped => rfl

theorem process_of_no_actions (hactions : c.actions rb = []) :
    (process rb c.1 jobs c.2).1 = jobs ∧ written rb jobs c = jobs := by
  rw [written, hactions]
  rw [Call.actions] at hactions
  rw [process, hactions]
  exact ⟨rfl, rfl⟩

end Calls

/-- A call that returns evicts what is stale exactly if some event of its stream yields a
record or no entry is stale. -/
theorem evictsStale_iff {rb : Runtime} {jobs : Hash Text Job} {c : Call}
    {out : List (Val × Record)} (h : (process rb c.1 jobs c.2).2 = some out) :
    EvictsStale rb jobs c ↔ c.actions rb ≠ [] ∨ ∀ e ∈ jobs, Fresh c.1 e := by
  rcases eq_or_ne (c.actions rb) [] with hactions | hactions
  · obtain ⟨hprocess, hwritten⟩ := @process_of_no_actions rb jobs c hactions
    rw [or_iff_right (not_not.mpr hactions)]
    constructor
    · intro hevicts
      rw [← hprocess]
      exact hevicts.fresh
    · intro hfresh
      refine ⟨?_, ?_, ?_⟩
      · rw [hprocess]
        exact hfresh
      · rw [hprocess, hwritten]
        exact fun e he _ => he
      · rw [hprocess]
        exact fun e he _ _ => he
  · have hprocess := process_of_actions h hactions
    refine iff_of_true ⟨?_, ?_, ?_⟩ (.inl hactions)
    · rw [hprocess]
      exact fun e he => (mem_cleanJobs.mp he).2
    · rw [hprocess]
      exact fun e he hfresh => mem_cleanJobs.mpr ⟨he, hfresh⟩
    · rw [hprocess]
      exact fun e he hkey hfresh => mem_cleanJobs.mpr ⟨mem_perform_of_mem he hkey, hfresh⟩

/-- A sample of one job evicts the entry of another. -/
theorem evictsStale_of_sample :
    EvictsStale integerRuntime [("1_a".toList, ⟨3, 7, 1⟩)] (1804, [memEvent 40]) ∧
      (process integerRuntime 1804 [("1_a".toList, ⟨3, 7, 1⟩)] [memEvent 40]).1.map Prod.fst =
        ["7_a".toList] := by
  have hreturns :
      (process integerRuntime 1804 [("1_a".toList, ⟨3, 7, 1⟩)] [memEvent 40]).2.isSome := by
    decide +kernel
  obtain ⟨out, hout⟩ := Option.isSome_iff_exists.mp hreturns
  have hactions : Call.actions integerRuntime (1804, [memEvent 40]) ≠ [] := by
    decide +kernel
  exact ⟨(@evictsStale_iff integerRuntime _ (1804, [memEvent 40]) out hout).mpr (.inl hactions),
    by decide +kernel⟩

/-- A call without records leaves an entry of an hour ago. -/
theorem evictsStale_fails_without_records :
    (process integerRuntime 6000 [("1_a".toList, ⟨2400, 7, 1⟩)] []).2 = some [] ∧
      ¬EvictsStale integerRuntime [("1_a".toList, ⟨2400, 7, 1⟩)] (6000, []) := by
  refine ⟨rfl, fun h => ?_⟩
  have hmem : ("1_a".toList, (⟨2400, 7, 1⟩ : Job)) ∈
      (process integerRuntime 6000 [("1_a".toList, ⟨2400, 7, 1⟩)] []).1 :=
    List.mem_singleton_self _
  exact absurd (h.fresh _ hmem) (by decide)

end DaapLog.StaleJobs

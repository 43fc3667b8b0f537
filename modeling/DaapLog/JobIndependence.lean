import DaapLog.SkippedChildren

/-!
Two runs that differ in the mem children of one job: what the plugin notes about another
job is the same in both as long as the two jobs do not share a key of `@jobs`.
-/

namespace DaapLog.JobIndependence

open DaapLog.CStrings
open DaapLog.OrderedHash
open DaapLog.RubyValues
open DaapLog.PluginActions
open DaapLog.PluginChildren
open DaapLog.PluginProcess
open DaapLog.ErrorIsolation
open DaapLog.MemoryHistory
open DaapLog.SkippedChildren

/-- `job_key` of a job id and a job name. -/
def jobKey (job : Text × Text) : Text := job.1 ++ "_".toList ++ job.2

/-- The key of the entry that an action is about. -/
def sampleKey : Action → Option Text
  | .sample job_key _ _ _ => some job_key
  | _ => none

/-- The second list is the first one without some actions that succeed and are not about
the key. -/
inductive Thinned (key : Text) : List Action → List Action → Prop
  | nil : Thinned key [] []
  | keep (action : Action) {l l' : List Action} (h : Thinned key l l') :
      Thinned key (action :: l) (action :: l')
  | drop (action : Action) (hsucceeds : action.Succeeds) (hkey : sampleKey action ≠ some key)
      {l l' : List Action} (h : Thinned key l l') : Thinned key (action :: l) l'

section Thinned

variable {key : Text}

theorem thinned_refl (l : List Action) : Thinned key l l := by
  induction l with
  | nil => exact .nil
  | cons action l ih => exact .keep action ih

theorem Thinned.append {front front' back back' : List Action} (h : Thinned key front front')
    (hback : Thinned key back back') : Thinned key (front ++ back) (front' ++ back') := by
  induction h with
  | nil => exact hback
  | keep action h ih => exact .keep action ih
  | drop action hsucceeds hkey h ih => exact .drop action hsucceeds hkey ih

theorem thinned_nil {l : List Action} (h : ∀ action ∈ l, action.Succeeds ∧
    sampleKey action ≠ some key) : Thinned key l [] := by
  induction l with
  | nil => exact .nil
  | cons action l ih =>
      rw [List.forall_mem_cons] at h
      exact .drop action h.1.1 h.1.2 (ih h.2)

theorem openJob_congr {jobs jobs' : Hash Text Job} (heq : get jobs key = get jobs' key)
    {k : Text} (hk : key = k) (time : Int) : openJob jobs k time = openJob jobs' k time := by
  rw [openJob, openJob, ← hk, heq]

theorem get_set_congr {jobs jobs' : Hash Text Job} (heq : get jobs key = get jobs' key)
    {k : Text} {job job' : Job} (hjob : key = k → job = job') :
    get (set jobs k job) key = get (set jobs' k job') key := by
  rw [get_set, get_set]
  split
  · next hk => rw [hjob hk]
  · exact heq

/-- The entry of the key is the same behind both lists. -/
theorem Thinned.get_perform {l l' : List Action} (h : Thinned key l l')
    {jobs jobs' : Hash Text Job} (heq : get jobs key = get jobs' key) :
    get (perform jobs l).1 key = get (perform jobs' l').1 key := by
  induction h generalizing jobs jobs' with
  | nil => exact heq
  | keep action h ih =>
      cases action with
      | push record => exact ih heq
      | sample k time new_mem record =>
          simp only [perform]
          cases new_mem.asNum with
          | none => exact get_set_congr heq fun hk => openJob_congr heq hk time
          | some x =>
              refine ih (get_set_congr heq fun hk => ?_)
              rw [openJob_congr heq hk time]
      | raise => exact heq
  | drop action hsucceeds hkey h ih =>
      cases action with
      | push record => exact ih heq
      | sample k time new_mem record =>
          obtain ⟨x, hx⟩ := Option.isSome_iff_exists.mp hsucceeds
          have hne : key ≠ k := fun hk => hkey (congrArg some hk.symm)
          simp only [perform, hx]
          refine ih ?_
          rw [get_set_of_ne hne, heq]
      | raise => exact hsucceeds.elim

end Thinned

/-- The job of a mem child. -/
def memJob : Val → Option (Text × Text)
  | .hash entries =>
      if hasKey entries "fields".toList && (fetch entries "name".toList).isText "mem".toList then
        ((fetch entries "tags".toList).asHash.bind fun tags =>
          (fetch tags "jobinfo".toList).asText).bind jobOf
      else none
  | _ => none

def withoutMem (job : Text × Text) (children : List Val) : List Val :=
  children.filter fun child => decide (memJob child ≠ some job)

/-- The event without the mem children of a job. -/
def RemovedEvent (rb : Runtime) (job : Text × Text) (e e' : Event) : Prop :=
  e'.1 = e.1 ∧
    ((∃ children, Carries rb e children ∧ Carries rb e' (withoutMem job children)) ∨
      (∀ children, ¬Carries rb e children) ∧ e' = e)

/-- The call without the mem children of a job. -/
def Removed (rb : Runtime) (job : Text × Text) (c c' : Call) : Prop :=
  c'.1 = c.1 ∧ List.Forall₂ (RemovedEvent rb job) c.2 c'.2

/-- The mem children of the job do not raise. -/
def MemParses (rb : Runtime) (job : Text × Text) (c : Call) : Prop :=
  ∀ e ∈ c.2, ∀ children, Carries rb e children → ∀ child ∈ children,
    memJob child = some job → ChildParses child

section Actions

variable {rb : Runtime} {job : Text × Text} {key : Text}

theorem readChild_jobinfo {entries : Record} {name : Text} {c : Child}
    (h : readChild entries name = some c) :
    ((fetch entries "tags".toList).asHash.bind fun tags =>
      (fetch tags "jobinfo".toList).asText) = some c.jobinfo := by
  rw [readChild, Option.bind_eq_bind, Option.bind_eq_some_iff] at h
  obtain ⟨tags, htags, h⟩ := h
  obtain ⟨jobinfo, hjobinfo, h⟩ := Option.bind_eq_some_iff.mp h
  obtain ⟨host, -, h⟩ := Option.bind_eq_some_iff.mp h
  obtain ⟨fields, -, h⟩ := Option.bind_eq_some_iff.mp h
  obtain ⟨message, -, h⟩ := Option.bind_eq_some_iff.mp h
  obtain rfl := Option.some.inj h
  rw [htags, Option.bind_some, hjobinfo]

/-- The samples of a job's mem child are noted under the key of the job. -/
theorem sampleKey_of_memJob {child : Val} (hjob : memJob child = some job) {time : Int}
    {action : Action} (haction : action ∈ childActions rb time child) :
    sampleKey action = none ∨ sampleKey action = some (jobKey job) := by
  cases action with
  | sample k t new_mem record =>
      obtain ⟨entries, name, c, rfl, hread, hsample⟩ := sample_mem_childActions haction
      obtain ⟨-, -, -, jobid, job_name, hjobOf, rfl⟩ := sample_mem_actions hsample
      rw [memJob] at hjob
      split at hjob
      · rw [readChild_jobinfo hread, Option.bind_some, hjobOf] at hjob
        obtain rfl := Option.some.inj hjob
        exact .inr rfl
      · exact absurd hjob (Option.some_ne_none _).symm
  | _ => exact .inl rfl

theorem succeeds_of_parses {child : Val} (h : ChildParses child) {time : Int} {action : Action}
    (haction : action ∈ childActions rb time child) : action.Succeeds := by
  have hemit := (childActions_emitted_iff rb time child).mpr h action haction
  cases action with
  | push record => trivial
  | sample k t new_mem record =>
      rw [emit] at hemit
      exact Option.isSome_of_isSome_bind hemit
  | raise => exact absurd hemit Bool.false_ne_true

theorem exists_jobOf_of_memJob {child : Val} (h : memJob child = some job) :
    ∃ jobinfo, jobOf jobinfo = some job := by
  cases child with
  | hash entries =>
      rw [memJob] at h
      split at h
      · obtain ⟨jobinfo, -, hjob⟩ := Option.bind_eq_some_iff.mp h
        exact ⟨jobinfo, hjob⟩
      · exact absurd h (Option.some_ne_none _).symm
  | _ => exact absurd h (Option.some_ne_none _).symm

theorem thinned_children (hkey : (∃ jobinfo, jobOf jobinfo = some job) → jobKey job ≠ key)
    (time : Int) {children : List Val} (hparses : ∀ child ∈ children, memJob child = some job → ChildParses child) :
    Thinned key (children.flatMap (childActions rb time))
      ((withoutMem job children).flatMap (childActions rb time)) := by
  induction children with
  | nil => exact .nil
  | cons child children ih =>
      rw [List.forall_mem_cons] at hparses
      rw [withoutMem, List.filter_cons, List.flatMap_cons]
      split
      · rw [List.flatMap_cons]
        exact (thinned_refl _).append (ih hparses.2)
      · next hkept =>
          have hjob : memJob child = some job := by simpa using hkept
          refine (thinned_nil fun action haction => ⟨?_, ?_⟩).append (ih hparses.2)
          · exact succeeds_of_parses (hparses.1 hjob) haction
          · intro hsample
            rcases sampleKey_of_memJob hjob haction with h | h
            · exact absurd (h.symm.trans hsample) (Option.some_ne_none _).symm
            · exact hkey (exists_jobOf_of_memJob hjob) (Option.some.inj (h.symm.trans hsample))

theorem thinned_actions (hkey : (∃ jobinfo, jobOf jobinfo = some job) → jobKey job ≠ key)
    {es es' : List Event} (hremoved : List.Forall₂ (RemovedEvent rb job) es es')
    (hparses : ∀ e ∈ es, ∀ children, Carries rb e children → ∀ child ∈ children,
      memJob child = some job → ChildParses child) :
    Thinned key (es.flatMap (eventActions rb)) (es'.flatMap (eventActions rb)) := by
  induction hremoved with
  | nil => exact .nil
  | cons hevent hrest ih =>
      rw [List.forall_mem_cons] at hparses
      rw [List.flatMap_cons, List.flatMap_cons]
      refine Thinned.append ?_ (ih hparses.2)
      obtain ⟨htime, ⟨children, hcarries, hcarries'⟩ | ⟨-, rfl⟩⟩ := hevent
      · rw [eventActions_of_carries hcarries, eventActions_of_carries hcarries', htime]
        exact thinned_children hkey _ (hparses.1 children hcarries)
      · exact thinned_refl _

end Actions

/-- `@jobs` behind a run of calls on a new instance. -/
def jobsAfter (rb : Runtime) (calls : List Call) : Hash Text Job :=
  calls.foldl (fun jobs c => (process rb c.1 jobs c.2).1) []

/-- The call drops the entry of the key at its end. -/
def Evicts (rb : Runtime) (jobs : Hash Text Job) (c : Call) (key : Text) : Prop :=
  hasKey (perform jobs (c.actions rb)).1 key ∧ ¬hasKey (process rb c.1 jobs c.2).1 key

/-- The two runs drop the entry of the key in the same calls. -/
def SameEvictions (rb : Runtime) (key : Text) (calls calls' : List Call) : Prop :=
  ∀ n c c', calls[n]? = some c → calls'[n]? = some c' →
    (Evicts rb (jobsAfter rb (calls.take n)) c key ↔
      Evicts rb (jobsAfter rb (calls'.take n)) c' key)

section Entries

variable {rb : Runtime} {jobs : Hash Text Job}

theorem nodup_perform (hjobs : (jobs.map Prod.fst).Nodup) (actions : List Action) :
    ((perform jobs actions).1.map Prod.fst).Nodup := by
  induction actions generalizing jobs with
  | nil => exact hjobs
  | cons action rest ih =>
      cases action with
      | push record => exact ih hjobs
      | sample k time new_mem record =>
          rw [perform]
          cases new_mem.asNum with
          | none => exact nodup_keys_set hjobs _ _
          | some x => exact ih (nodup_keys_set hjobs _ _)
      | raise => exact hjobs

theorem nodup_process (hjobs : (jobs.map Prod.fst).Nodup) (cur_ts : Int) (es : List Event) :
    ((process rb cur_ts jobs es).1.map Prod.fst).Nodup := by
  have hperform := nodup_perform hjobs (es.flatMap (eventActions rb))
  rcases process_jobs rb cur_ts jobs es with h | h
  · rw [h]
    exact hperform
  · rw [h, cleanJobs]
    exact hperform.sublist (List.Sublist.map _ List.filter_sublist)

theorem nodup_jobsAfter (calls : List Call) : ((jobsAfter rb calls).map Prod.fst).Nodup := by
  rw [jobsAfter]
  exact List.foldlRecOn (motive := fun jobs : Hash Text Job => (jobs.map Prod.fst).Nodup)
    calls _ List.nodup_nil fun jobs hjobs c _ => nodup_process hjobs c.1 c.2

theorem get_process (hjobs : (jobs.map Prod.fst).Nodup) (c : Call) (key : Text) :
    get (process rb c.1 jobs c.2).1 key = none ∨
      get (process rb c.1 jobs c.2).1 key = get (perform jobs (c.actions rb)).1 key := by
  rcases process_jobs rb c.1 jobs c.2 with h | h
  · exact .inr (by rw [h]; rfl)
  · rw [h, cleanJobs]
    exact get_filter (nodup_perform hjobs _) _ key

theorem jobsAfter_concat (calls : List Call) (c : Call) :
    jobsAfter rb (calls ++ [c]) = (process rb c.1 (jobsAfter rb calls) c.2).1 := by
  rw [jobsAfter, jobsAfter, List.foldl_append]
  rfl

theorem get_process_eq {jobs' : Hash Text Job} {key : Text} {c c' : Call}
    (hjobs : (jobs.map Prod.fst).Nodup) (hjobs' : (jobs'.map Prod.fst).Nodup)
    (hperform : get (perform jobs (c.actions rb)).1 key =
      get (perform jobs' (c'.actions rb)).1 key)
    (hevicts : Evicts rb jobs c key ↔ Evicts rb jobs' c' key) :
    get (process rb c.1 jobs c.2).1 key = get (process rb c'.1 jobs' c'.2).1 key := by
  rw [Evicts, Evicts, hasKey, hasKey, hasKey, hasKey, hperform] at hevicts
  have hend := @get_process rb _ hjobs c key
  have hend' := @get_process rb _ hjobs' c' key
  rw [hperform] at hend
  generalize get (perform jobs' (c'.actions rb)).1 key = entry at hend hend' hevicts
  cases entry with
  | none => exact (or_self_iff.mp hend).trans (or_self_iff.mp hend').symm
  | some job =>
      rcases hend with h | h <;> rcases hend' with h' | h' <;> simp_all

end Entries

/-- In runs that differ in mem children of `A` that do not raise, the entry used for `B` is
the same in every state reached if it is dropped in the same calls. -/
def Independent (rb : Runtime) (A B : Text × Text) : Prop :=
  ∀ calls calls', List.Forall₂ (Removed rb A) calls calls' → (∀ c ∈ calls, MemParses rb A c) →
    SameEvictions rb (jobKey B) calls calls' →
      ∀ n, get (jobsAfter rb (calls.take n)) (jobKey B) =
        get (jobsAfter rb (calls'.take n)) (jobKey B)

theorem independent_of_keys {rb : Runtime} {A B : Text × Text}
    (hkey : (∃ jobinfo, jobOf jobinfo = some A) → jobKey A ≠ jobKey B) : Independent rb A B := by
  intro calls calls' hremoved hparses hevictions n
  induction n with
  | zero => rfl
  | succ n ih =>
      rcases Nat.lt_or_ge n calls.length with hn | hn
      · have hn' : n < calls'.length := hremoved.length_eq ▸ hn
        have hc := hremoved.get hn hn'
        have hactions := thinned_actions hkey hc.2 (hparses _ (List.getElem_mem hn))
        rw [List.take_succ_eq_append_getElem hn, List.take_succ_eq_append_getElem hn',
          jobsAfter_concat, jobsAfter_concat]
        refine get_process_eq (nodup_jobsAfter _) (nodup_jobsAfter _) (hactions.get_perform ih) ?_
        exact hevictions n _ _ (List.getElem?_eq_getElem hn) (List.getElem?_eq_getElem hn')
      · have hn' : calls'.length ≤ n := hremoved.length_eq ▸ hn
        rw [List.take_of_length_le (Nat.le_succ_of_le hn),
          List.take_of_length_le (Nat.le_succ_of_le hn')]
        rw [List.take_of_length_le hn, List.take_of_length_le hn'] at ih
        exact ih

/-- A mem child with this `jobinfo`. -/
def memChild (jobinfo : Text) : Val :=
  .hash [("name".toList, .str "mem".toList),
    ("tags".toList, .hash [("host".toList, .str "n".toList), ("jobinfo".toList, .str jobinfo)]),
    ("fields".toList, .hash [("used_percent".toList, .num 1)])]

section Collision

variable {rb : Runtime} {A B : Text × Text} {jobinfo : Text}

/-- The parts of the child. -/
def memParts (jobinfo : Text) : Child :=
  ⟨"mem".toList, [("host".toList, .str "n".toList), ("jobinfo".toList, .str jobinfo)],
    [("used_percent".toList, .num 1)], jobinfo, "n".toList, .nil, none⟩

theorem finalName_memParts (jobinfo : Text) : (memParts jobinfo).finalName = "mem".toList := rfl

theorem memChild_actions (hjob : jobOf jobinfo = some A) :
    ∃ record, Call.actions rb (0, [metricsEvent 0 [memChild jobinfo]]) =
      [.sample (jobKey A) 0 (.num 1) record] := by
  have hname := finalName_memParts jobinfo
  have hchild : (memParts jobinfo).actions rb 0 = (memParts jobinfo).mem (jobKey A) 0 := by
    have hparts : jobOf (memParts jobinfo).jobinfo = some A := hjob
    rw [Child.actions, hparts]
    show (if (memParts jobinfo).finalName = _ then _ else _) = _
    rw [if_neg fun h => absurd (hname.symm.trans h) (by decide),
      if_neg fun h => absurd (hname.symm.trans h) (by decide), if_pos hname]
    rfl
  have hcall : Call.actions rb (0, [metricsEvent 0 [memChild jobinfo]]) =
      (memParts jobinfo).mem (jobKey A) 0 := by
    rw [Call.actions, List.flatMap_singleton,
      eventActions_of_carries (carries_metricsEvent rb 0 _), List.flatMap_singleton]
    exact hchild
  exact ⟨_, hcall⟩

theorem memChild_parses (jobinfo : Text) : ChildParses (memChild jobinfo) := by
  refine ⟨_, rfl, fun _ _ name _ hname => ?_⟩
  obtain rfl := Val.str.inj hname
  refine ⟨memParts jobinfo, rfl, fun _ => ⟨fun _ => rfl, fun hsnap => ?_, fun hlisted => ?_⟩⟩
  · rw [finalName_memParts] at hsnap
    exact absurd hsnap (by decide)
  · rw [finalName_memParts] at hlisted
    exact absurd hlisted (by decide)

theorem memChild_memParses (jobinfo : Text) :
    MemParses rb A (0, [metricsEvent 0 [memChild jobinfo]]) := by
  intro e he children hcarries child hchild _
  obtain rfl := List.mem_singleton.mp he
  obtain ⟨record, hrecord, hmetrics⟩ := hcarries
  obtain rfl := Option.some.inj hrecord
  obtain rfl := Val.arr.inj hmetrics
  obtain rfl := List.mem_singleton.mp hchild
  exact memChild_parses jobinfo

theorem removed_memChild (hjob : jobOf jobinfo = some A) :
    Removed rb A (0, [metricsEvent 0 [memChild jobinfo]]) (0, [metricsEvent 0 []]) := by
  have hwithout : withoutMem A [memChild jobinfo] = [] := by
    have hmem : memJob (memChild jobinfo) = some A := hjob
    simp [withoutMem, hmem]
  refine ⟨rfl, .cons ⟨rfl, .inl ⟨[memChild jobinfo], carries_metricsEvent rb 0 _, ?_⟩⟩ .nil⟩
  rw [hwithout]
  exact carries_metricsEvent rb 0 []

theorem hasKey_memChild (hjob : jobOf jobinfo = some A) :
    hasKey (process rb 0 [] [metricsEvent 0 [memChild jobinfo]]).1 (jobKey A) := by
  obtain ⟨record, hactions⟩ := @memChild_actions rb _ _ hjob
  have hperform : (perform [] (Call.actions rb (0, [metricsEvent 0 [memChild jobinfo]]))).1 =
      [(jobKey A, ⟨0, 1, 1⟩)] := by
    rw [hactions]
    rfl
  have hkept : hasKey [(jobKey A, (⟨0, 1, 1⟩ : Job))] (jobKey A) := by
    rw [hasKey, get_cons, if_pos rfl]
    rfl
  rcases process_jobs rb 0 [] [metricsEvent 0 [memChild jobinfo]] with h | h
  · rw [h]
    exact hperform ▸ hkept
  · rw [h]
    exact hperform ▸ hkept

theorem not_independent_of_eq (hjob : jobOf jobinfo = some A) (hkey : jobKey A = jobKey B) :
    ¬Independent rb A B := by
  intro h
  have hhas := @hasKey_memChild rb _ _ hjob
  have hrun := h [(0, [metricsEvent 0 [memChild jobinfo]])] [(0, [metricsEvent 0 []])]
    (.cons (removed_memChild hjob) .nil) ?_ ?_ 1
  · rw [← hkey] at hrun
    rw [hasKey] at hhas
    exact absurd (hrun ▸ hhas : (get (jobsAfter rb [(0, [metricsEvent 0 []])])
      (jobKey A)).isSome) Bool.false_ne_true
  · intro c hc
    obtain rfl := List.mem_singleton.mp hc
    exact memChild_memParses jobinfo
  · intro n c c' hc hc'
    obtain ⟨hn, -⟩ := List.getElem?_eq_some_iff.mp hc
    obtain rfl : n = 0 := Nat.lt_one_iff.mp hn
    obtain rfl := Option.some.inj hc
    obtain rfl := Option.some.inj hc'
    refine iff_of_false (fun hevicts => ?_) fun hevicts => ?_
    · exact hevicts.2 (hkey ▸ hhas)
    · exact absurd hevicts.1 Bool.false_ne_true

end Collision

/-- What is noted for `B` is independent of the mem children of `A` exactly if there is no
`jobinfo` of `A` or the two jobs have different keys. -/
theorem independent_iff (rb : Runtime) (A B : Text × Text) :
    Independent rb A B ↔ ((∃ jobinfo, jobOf jobinfo = some A) → jobKey A ≠ jobKey B) := by
  constructor
  · rintro h ⟨jobinfo, hjob⟩ hkey
    exact not_independent_of_eq hjob hkey h
  · exact independent_of_keys

/-- The jobs `1_2` named `3` and `1` named `2_3` share an entry. -/
theorem not_independent_underscore :
    ¬Independent integerRuntime ("1_2".toList, "3".toList) ("1".toList, "2_3".toList) :=
  not_independent_of_eq (show jobOf "jobid=1_2 name=3 user=u".toList = _ by decide +kernel) rfl

end DaapLog.JobIndependence

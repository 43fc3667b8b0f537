import DaapLog.ErrorIsolation

/-!
The entries of `@jobs` over a run of calls: beside each of them stands the list of the
samples that the plugin has noted in it since it was created.
-/

namespace DaapLog.MemoryHistory

open DaapLog.CStrings
open DaapLog.OrderedHash
open DaapLog.RubyValues
open DaapLog.PluginActions
open DaapLog.PluginChildren
open DaapLog.TextDispatch
open DaapLog.PluginProcess

/-- Times and values of samples, the oldest first. -/
abbrev History := List (Int × ℚ)

def highest (history : History) : ℚ := (history.map Prod.snd).foldl max 0

/-- `@jobs` with the samples of each key since its entry was last created. -/
structure Memory where
  jobs : Hash Text Job
  history : Text → History

namespace Memory

/-- A key without entry starts anew. -/
def since (m : Memory) (job_key : Text) : History :=
  if hasKey m.jobs job_key then m.history job_key else []

def openEntry (m : Memory) (job_key : Text) (time : Int) : Memory where
  jobs := set m.jobs job_key (openJob m.jobs job_key time)
  history := Function.update m.history job_key (m.since job_key)

def note (m : Memory) (job_key : Text) (time : Int) (x : ℚ) : Memory where
  jobs := set m.jobs job_key (addSample (openJob m.jobs job_key time) time x)
  history := Function.update m.history job_key (m.since job_key ++ [(time, x)])

def perform : Memory → List Action → Memory
  | m, [] => m
  | m, .push _ :: rest => perform m rest
  | m, .sample job_key time new_mem _ :: rest =>
      match new_mem.asNum with
      | none => m.openEntry job_key time
      | some x => perform (m.note job_key time x) rest
  | m, .raise :: _ => m

theorem perform_jobs (m : Memory) (actions : List Action) :
    (m.perform actions).jobs = (PluginActions.perform m.jobs actions).1 := by
  induction actions generalizing m with
  | nil => rfl
  | cons action rest ih =>
      cases action with
      | push new_rec => exact ih m
      | sample job_key time new_mem dup_rec =>
          rw [perform, PluginActions.perform]
          cases new_mem.asNum with
          | none => rfl
          | some x => exact ih (m.note job_key time x)
      | raise => rfl

end Memory

/-- A call of `process`: the clock at its end and the stream. -/
abbrev Call := Int × List Event

def Call.actions (rb : Runtime) (c : Call) : List Action := c.2.flatMap (eventActions rb)

namespace Memory

/-- The state behind a call: `@jobs` is that of `process`. -/
def call (rb : Runtime) (m : Memory) (c : Call) : Memory where
  jobs := (process rb c.1 m.jobs c.2).1
  history := (m.perform (c.actions rb)).history

/-- The state behind a sequence of calls on a new instance. -/
def after (rb : Runtime) (calls : List Call) : Memory :=
  calls.foldl (call rb) ⟨[], fun _ => []⟩

end Memory

theorem mem_jobs_of_mem_process {rb : Runtime} {cur_ts : Int} {jobs : Hash Text Job}
    {es : List Event} {e : Text × Job} (he : e ∈ (process rb cur_ts jobs es).1) :
    e ∈ (perform jobs (es.flatMap (eventActions rb))).1 := by
  rcases process_jobs rb cur_ts jobs es with h | h
  · exact h ▸ he
  · exact List.mem_of_mem_filter (h ▸ he)

/-- An entry agrees with the samples noted in it. -/
structure Tracks (job : Job) (history : History) : Prop where
  samples : job.samples = history.length
  max_mem : job.max_mem = highest history
  timestamp : ∀ last ∈ history.getLast?, job.timestamp = last.1

theorem tracks_new (time : Int) : Tracks ⟨time, 0, 0⟩ [] := ⟨rfl, rfl, nofun⟩

theorem highest_concat (history : History) (time : Int) (x : ℚ) :
    highest (history ++ [(time, x)]) = max (highest history) x := by
  simp [highest]

theorem tracks_addSample {job : Job} {history : History} (h : Tracks job history) (time : Int)
    (x : ℚ) : Tracks (addSample job time x) (history ++ [(time, x)]) := by
  rw [addSample]
  split
  · next hgt =>
      refine ⟨by simp [h.samples], ?_, by simp⟩
      rw [highest_concat, ← h.max_mem, max_eq_right (le_of_lt hgt)]
  · next hle =>
      refine ⟨by simp [h.samples], ?_, by simp⟩
      rw [highest_concat, ← h.max_mem, max_eq_left (not_lt.mp hle)]

/-- Every entry agrees with its history, and `P` holds of the histories. -/
def Memory.Agrees (P : History → Prop) (m : Memory) : Prop :=
  ∀ e ∈ m.jobs, Tracks e.2 (m.history e.1) ∧ P (m.history e.1)

def NumericSamples (actions : List Action) : Prop :=
  ∀ action ∈ actions, ∀ job_key time new_mem dup_rec,
    action = .sample job_key time new_mem dup_rec → new_mem.asNum.isSome

section Steps

variable {P : History → Prop} {m : Memory}

theorem tracks_openJob (h : m.Agrees P) (job_key : Text) (time : Int) :
    Tracks (openJob m.jobs job_key time) (m.since job_key) := by
  rw [openJob, Memory.since, hasKey]
  cases hget : get m.jobs job_key with
  | none => exact tracks_new time
  | some job => exact (h _ (mem_of_get hget)).1

theorem agrees_set (h : m.Agrees P) {job_key : Text} {job : Job} {history : History}
    (hjob : Tracks job history) (hP : P history) :
    Memory.Agrees P ⟨set m.jobs job_key job, Function.update m.history job_key history⟩ := by
  intro e he
  rcases mem_set he with rfl | ⟨hmem, hne⟩
  · simp only [Function.update_self]
    exact ⟨hjob, hP⟩
  · simp only [Function.update_of_ne hne]
    exact h e hmem

theorem agrees_note (h : m.Agrees P) (hP : ∀ history p, P (history ++ [p])) (job_key : Text)
    (time : Int) (x : ℚ) : (m.note job_key time x).Agrees P :=
  agrees_set h (tracks_addSample (tracks_openJob h job_key time) time x) (hP _ _)

/-- The actions keep the agreement; `P` has to hold of new histories, too, if some
sample is not a number. -/
theorem agrees_perform (h : m.Agrees P) (hP : ∀ history p, P (history ++ [p]))
    {actions : List Action}
    (hnumeric : NumericSamples actions ∨ ∀ history, P history) : (m.perform actions).Agrees P := by
  induction actions generalizing m with
  | nil => exact h
  | cons action rest ih =>
      rw [NumericSamples, List.forall_mem_cons] at hnumeric
      have hrest := hnumeric.imp_left And.right
      cases action with
      | push new_rec => exact ih h hrest
      | sample job_key time new_mem dup_rec =>
          rw [Memory.perform]
          cases hmem : new_mem.asNum with
          | none =>
              rcases hnumeric with hall | hall
              · have hsome := hall.1 job_key time new_mem dup_rec rfl
                rw [hmem] at hsome
                exact absurd hsome Bool.false_ne_true
              · exact agrees_set h (tracks_openJob h job_key time) (hall _)
          | some x => exact ih (agrees_note h hP job_key time x) hrest
      | raise => exact h

end Steps

theorem agrees_call {P : History → Prop} {m : Memory} (h : m.Agrees P)
    (hP : ∀ history p, P (history ++ [p])) {rb : Runtime} {c : Call}
    (hnumeric : NumericSamples (c.actions rb) ∨ ∀ history, P history) : (m.call rb c).Agrees P := by
  intro e he
  refine agrees_perform h hP hnumeric e ?_
  rw [Memory.perform_jobs]
  exact mem_jobs_of_mem_process he

theorem after_induction {rb : Runtime} {P : Memory → Prop} {calls : List Call}
    (hstart : P ⟨[], fun _ => []⟩) (hcall : ∀ c ∈ calls, ∀ m, P m → P (m.call rb c)) :
    P (Memory.after rb calls) := by
  rw [Memory.after]
  exact List.foldlRecOn calls (Memory.call rb) hstart fun m hm c hc => hcall c hc m hm

/-- The mem children of an event carry a numeric `used_percent`. -/
def NumericMem (rb : Runtime) (e : Event) : Prop :=
  ∀ record, parsedRecord rb e.2 = some record →
    ∀ children, elements (fetch record "metrics".toList) = some children →
      ∀ entries, .hash entries ∈ children → ∀ name c, readChild entries name = some c →
        c.finalName = "mem".toList → (fetch c.fields "used_percent".toList).asNum.isSome

section Samples

variable {rb : Runtime} {job_key : Text} {time : Int} {new_mem : Val} {dup_rec : Record}

theorem sample_not_mem_expand (c : Child) (what : Text) (items : List Text)
    (dup : Text → Record → Record) :
    .sample job_key time new_mem dup_rec ∉ c.expand what items dup := by
  intro h
  obtain ⟨item, -, heq⟩ := List.mem_map.mp h
  exact nomatch heq

theorem sample_not_mem_push (m : Record) :
    .sample job_key time new_mem dup_rec ∉ [Action.push m] :=
  fun h => nomatch List.mem_singleton.mp h

theorem sample_not_mem_snapActions (c : Child) :
    .sample job_key time new_mem dup_rec ∉ c.snapActions rb := by
  rw [Child.snapActions]
  split
  · cases c.snap rb with
    | none =>
        intro h
        cases List.mem_singleton.mp h
    | some m => exact sample_not_mem_push m
  · exact List.not_mem_nil

theorem sample_mem_actions {c : Child} {now : Int}
    (h : .sample job_key time new_mem dup_rec ∈ c.actions rb now) :
    c.finalName = "mem".toList ∧ new_mem = fetch c.fields "used_percent".toList ∧
      get dup_rec "val".toList = some new_mem ∧
      ∃ jobid job_name, jobOf c.jobinfo = some (jobid, job_name) ∧
        job_key = jobid ++ "_".toList ++ job_name := by
  rw [Child.actions] at h
  split at h
  · exact absurd h List.not_mem_nil
  next jobid job_name hjob =>
  simp only at h
  split at h
  · rcases List.mem_append.mp h with h | h
    · exact absurd h (sample_not_mem_expand c _ _ _)
    · exact absurd h (sample_not_mem_expand c _ _ _)
  split at h
  · exact absurd h (sample_not_mem_expand c _ _ _)
  split at h
  · next hmem =>
      obtain ⟨rfl, rfl, rfl, rfl⟩ := Action.sample.inj (List.mem_singleton.mp h)
      exact ⟨hmem, rfl, get_set_self _ _ _, jobid, job_name, hjob, rfl⟩
  split at h
  · exact absurd h (sample_not_mem_push _)
  split at h
  · exact absurd h (sample_not_mem_snapActions c)
  · exact absurd h (sample_not_mem_push _)

theorem sample_mem_childActions {now : Int} {child : Val}
    (h : .sample job_key time new_mem dup_rec ∈ childActions rb now child) :
    ∃ entries name c, child = .hash entries ∧ readChild entries name = some c ∧
      .sample job_key time new_mem dup_rec ∈ c.actions rb now := by
  cases child with
  | hash entries =>
      rw [childActions] at h
      split at h
      · split at h
        · next name _ =>
            split at h
            · rw [namedActions] at h
              cases hread : readChild entries name with
              | none => simp [hread] at h
              | some c =>
                  rw [hread] at h
                  exact ⟨entries, name, c, rfl, hread, h⟩
            · simp at h
        · simp at h
      · simp at h
  | _ => cases List.mem_singleton.mp h

theorem sample_not_mem_messageActions (message : Val) :
    .sample job_key time new_mem dup_rec ∉ messageActions rb message := by
  rcases messageActions_cases rb message with ⟨-, h⟩ | ⟨-, h⟩ | ⟨-, r, -, h⟩ <;> simp [h]

theorem sample_mem_eventActions {e : Event}
    (h : .sample job_key time new_mem dup_rec ∈ eventActions rb e) :
    ∃ record children child, parsedRecord rb e.2 = some record ∧
      elements (fetch record "metrics".toList) = some children ∧ child ∈ children ∧
      .sample job_key time new_mem dup_rec ∈ childActions rb e.1 child := by
  rw [eventActions] at h
  split at h
  · cases hrecord : parsedRecord rb e.2 with
    | none => simp [hrecord] at h
    | some record =>
        simp only [hrecord, recordActions] at h
        split at h
        · exact absurd h (sample_not_mem_messageActions _)
        · cases hchildren : elements (fetch record "metrics".toList) with
          | none => simp only [hchildren, List.mem_singleton, reduceCtorEq] at h
          | some children =>
              simp only [hchildren] at h
              obtain ⟨child, hchild, h⟩ := List.mem_flatMap.mp h
              exact ⟨record, children, child, rfl, hchildren, hchild, h⟩
  · simp at h

theorem numericSamples_of_numericMem {c : Call} (hnumeric : ∀ e ∈ c.2, NumericMem rb e) :
    NumericSamples (c.actions rb) := by
  rintro action haction job_key time new_mem dup_rec rfl
  obtain ⟨e, he, haction⟩ := List.mem_flatMap.mp haction
  obtain ⟨record, children, child, hrecord, hchildren, hchild, haction⟩ :=
    sample_mem_eventActions haction
  obtain ⟨entries, name, c, rfl, hread, haction⟩ := sample_mem_childActions haction
  obtain ⟨hmem, rfl, -⟩ := sample_mem_actions haction
  exact hnumeric e he record hrecord children hchildren entries hchild name c hread hmem

end Samples

/-- An event with a memory sample of the job `7_a`. -/
def memEvent (used_percent : ℚ) : Event :=
  (5, [("metrics".toList, .arr [.hash [
    ("name".toList, .str "mem".toList),
    ("tags".toList, .hash [("host".toList, .str "n".toList),
      ("jobinfo".toList, .str "jobid=7 name=a user=u".toList)]),
    ("fields".toList, .hash [("used_percent".toList, .num used_percent)]),
    ("timestamp".toList, .num 5)]])])

theorem numericMem_memEvent (rb : Runtime) (used_percent : ℚ) :
    NumericMem rb (memEvent used_percent) := by
  intro record hrecord children hchildren entries hentries name c hread _
  obtain rfl := Option.some.inj hrecord
  obtain rfl := Option.some.inj hchildren
  obtain rfl := Val.hash.inj (List.mem_singleton.mp hentries)
  obtain rfl := Option.some.inj hread
  rfl

/-- Two calls with a sample of the job each. -/
def memCalls : List Call := [(0, [memEvent 40]), (0, [memEvent 30])]

end DaapLog.MemoryHistory

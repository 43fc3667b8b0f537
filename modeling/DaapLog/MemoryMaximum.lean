import DaapLog.MemoryHistory

/-!
The records of type `used_percent_max` carry the sample and not the maximum that the
plugin keeps: when the two agree over a whole run.
-/

namespace DaapLog.MemoryMaximum

open DaapLog.CStrings
open DaapLog.OrderedHash
open DaapLog.RubyValues
open DaapLog.PluginActions
open DaapLog.PluginChildren
open DaapLog.PluginProcess
open DaapLog.ErrorIsolation
open DaapLog.MemoryHistory

/-- Each record that a call emits for a sample has the maximum of the samples of its
entry, the current one included. -/
def ReportsMaximum (rb : Runtime) (m : Memory) (c : Call) : Prop :=
  ∀ out, (process rb c.1 m.jobs c.2).2 = some out →
    ∀ i job_key time new_mem dup_rec,
      (c.actions rb)[i]? = some (Action.sample job_key time new_mem dup_rec) →
        ∃ ts record, out[i]? = some (ts, record) ∧ get record "val".toList =
          some (Val.num (highest ((m.perform ((c.actions rb).take (i + 1))).history job_key)))

/-- The samples of a call that gets through are not negative and no smaller than those
of their entry before them. -/
def NeverFalls (rb : Runtime) (m : Memory) (c : Call) : Prop :=
  (∀ e ∈ c.2, EventParses rb e.2) →
    ∀ i job_key time x dup_rec,
      (c.actions rb)[i]? = some (Action.sample job_key time (Val.num x) dup_rec) →
        0 ≤ x ∧ ∀ p ∈ (m.perform ((c.actions rb).take i)).since job_key, p.2 ≤ x

theorem highest_le_iff (history : History) (x : ℚ) :
    highest history ≤ x ↔ 0 ≤ x ∧ ∀ p ∈ history, p.2 ≤ x := by
  induction history using List.reverseRecOn with
  | nil => simp [highest]
  | append_singleton history p ih =>
      rw [highest_concat, max_le_iff, ih]
      simp [or_imp, forall_and, and_assoc]

theorem mapM_getElem? {α β : Type*} {f : α → Option β} {l : List α} {out : List β}
    (h : l.mapM f = some out) {i : Nat} {a : α} (ha : l[i]? = some a) :
    ∃ b, f a = some b ∧ out[i]? = some b := by
  induction l generalizing out i with
  | nil => simp at ha
  | cons a' l ih =>
      rw [mapM_cons_some, Option.bind_eq_some_iff] at h
      obtain ⟨b, hb, h⟩ := h
      obtain ⟨rest, hrest, rfl⟩ := Option.map_eq_some_iff.mp h
      cases i with
      | zero =>
          obtain rfl : a' = a := by simpa using ha
          exact ⟨b, hb, rfl⟩
      | succ i => exact ih hrest (by simpa using ha)

theorem perform_take_sample {m : Memory} {actions : List Action} {i : Nat} {job_key : Text}
    {time : Int} {x : ℚ} {dup_rec : Record}
    (hsome : ∀ action ∈ actions, action.Succeeds)
    (hi : actions[i]? = some (.sample job_key time (.num x) dup_rec)) :
    (m.perform (actions.take (i + 1))).history job_key =
      (m.perform (actions.take i)).since job_key ++ [(time, x)] := by
  induction actions generalizing m i with
  | nil => simp at hi
  | cons action rest ih =>
      rw [List.forall_mem_cons] at hsome
      cases i with
      | zero =>
          obtain rfl : action = .sample job_key time (.num x) dup_rec := by simpa using hi
          simp [Memory.perform, Val.asNum, Memory.note]
      | succ i =>
          have hrest : rest[i]? = some (.sample job_key time (.num x) dup_rec) := by simpa using hi
          rw [List.take_succ_cons, List.take_succ_cons]
          cases action with
          | push new_rec => exact ih hsome.2 hrest
          | sample job_key' time' new_mem' dup_rec' =>
              obtain ⟨y, hy⟩ := Option.isSome_iff_exists.mp hsome.1
              simp only [Memory.perform, hy]
              exact ih hsome.2 hrest
          | raise => exact hsome.1.elim

theorem succeeds_of_emit {rb : Runtime} {action : Action} (h : (emit rb action).isSome) :
    action.Succeeds := by
  cases action with
  | push new_rec => trivial
  | sample job_key time new_mem dup_rec =>
      rw [emit] at h
      exact Option.isSome_of_isSome_bind h
  | raise => exact absurd h Bool.false_ne_true

theorem sample_val {rb : Runtime} {c : Call} {job_key : Text} {time : Int} {new_mem : Val}
    {dup_rec : Record} (h : .sample job_key time new_mem dup_rec ∈ c.actions rb) :
    get dup_rec "val".toList = some new_mem := by
  obtain ⟨e, -, haction⟩ := List.mem_flatMap.mp h
  obtain ⟨record, children, child, -, -, -, haction⟩ := sample_mem_eventActions haction
  obtain ⟨entries, name, c, -, -, haction⟩ := sample_mem_childActions haction
  exact (sample_mem_actions haction).2.2.1

theorem emitted_val {rb : Runtime} {m : Memory} {c : Call} {out : List (Val × Record)}
    (hout : (process rb c.1 m.jobs c.2).2 = some out) {i : Nat} {job_key : Text} {time : Int}
    {new_mem : Val} {dup_rec : Record}
    (hi : (c.actions rb)[i]? = some (.sample job_key time new_mem dup_rec)) :
    ∃ x ts record, new_mem = .num x ∧ out[i]? = some (ts, record) ∧
      get record "val".toList = some (.num x) := by
  rw [process_emits] at hout
  obtain ⟨⟨ts, record⟩, hemit, hrecord⟩ := mapM_getElem? hout hi
  rw [emit, Option.bind_eq_some_iff] at hemit
  obtain ⟨x, hx, hstamp⟩ := hemit
  have hmem : new_mem = .num x := by
    cases new_mem with
    | num y => rw [Val.asNum, Option.some.injEq] at hx; rw [hx]
    | _ => exact absurd hx (by simp [Val.asNum])
  refine ⟨x, ts, record, hmem, hrecord, ?_⟩
  rw [stampRecord_get hstamp (by decide), sample_val (List.mem_of_getElem? hi), hmem]

theorem call_succeeds {rb : Runtime} {m : Memory} {c : Call}
    (h : (process rb c.1 m.jobs c.2).2.isSome) :
    ∀ action ∈ c.actions rb, action.Succeeds := by
  rw [process_emits, mapM_isSome_iff] at h
  exact fun action haction => succeeds_of_emit (h action haction)

theorem call_reportsMaximum_iff (rb : Runtime) (m : Memory) (c : Call) :
    ReportsMaximum rb m c ↔ NeverFalls rb m c := by
  have hhistory (hsome : (process rb c.1 m.jobs c.2).2.isSome) {i : Nat} {job_key : Text}
      {time : Int} {x : ℚ} {dup_rec : Record}
      (hi : (c.actions rb)[i]? = some (.sample job_key time (.num x) dup_rec)) :
      highest ((m.perform ((c.actions rb).take (i + 1))).history job_key) = x ↔
        0 ≤ x ∧ ∀ p ∈ (m.perform ((c.actions rb).take i)).since job_key, p.2 ≤ x := by
    rw [perform_take_sample (call_succeeds hsome) hi, highest_concat, max_eq_right_iff,
      highest_le_iff]
  constructor
  · intro hreports hparses i job_key time x dup_rec hi
    have hsome := (process_isSome_iff rb c.1 m.jobs c.2).mpr hparses
    obtain ⟨out, hout⟩ := Option.isSome_iff_exists.mp hsome
    obtain ⟨y, ts, record, hxy, hrecord, hval⟩ := emitted_val hout hi
    obtain ⟨ts', record', hrecord', hval'⟩ := hreports out hout i _ _ _ _ hi
    obtain ⟨rfl, rfl⟩ := Prod.mk.inj (Option.some.inj (hrecord.symm.trans hrecord'))
    rw [← hhistory hsome hi, Val.num.inj hxy]
    exact (Val.num.inj (Option.some.inj (hval.symm.trans hval'))).symm
  · intro hrising out hout i job_key time new_mem dup_rec hi
    have hsome : (process rb c.1 m.jobs c.2).2.isSome := by rw [hout]; rfl
    have hparses := (process_isSome_iff rb c.1 m.jobs c.2).mp hsome
    obtain ⟨x, ts, record, rfl, hrecord, hval⟩ := emitted_val hout hi
    refine ⟨ts, record, hrecord, ?_⟩
    rw [hval, (hhistory hsome hi).mpr (hrising hparses i _ _ _ _ hi)]

/-- The reported values are the maxima in every call of a run exactly if the samples of
an entry never fall in the run. -/
theorem run_reportsMaximum_iff (rb : Runtime) (calls : List Call) :
    (∀ front c back, calls = front ++ c :: back → ReportsMaximum rb (Memory.after rb front) c) ↔
      ∀ front c back, calls = front ++ c :: back → NeverFalls rb (Memory.after rb front) c :=
  forall₃_congr fun front c _ => imp_congr_right fun _ =>
    call_reportsMaximum_iff rb (Memory.after rb front) c

theorem run_reportsMaximum_fails_on_fall :
    ¬∀ front c back, [((0, [memEvent 40]) : Call), (0, [memEvent 30])] = front ++ c :: back →
      ReportsMaximum integerRuntime (Memory.after integerRuntime front) c := by
  intro h
  have hcall := h [(0, [memEvent 40])] (0, [memEvent 30]) [] rfl
  have hsome : (process integerRuntime 0
      (Memory.after integerRuntime [(0, [memEvent 40])]).jobs [memEvent 30]).2.isSome := by
    decide +kernel
  obtain ⟨out, hout⟩ := Option.isSome_iff_exists.mp hsome
  have hi : ∃ dup_rec, (Call.actions integerRuntime (0, [memEvent 30]))[0]? =
      some (.sample "7_a".toList 5 (.num 30) dup_rec) := ⟨_, rfl⟩
  obtain ⟨dup_rec, hi⟩ := hi
  obtain ⟨x, ts, record, hx, hrecord, hval⟩ := emitted_val hout hi
  obtain ⟨ts', record', hrecord', hval'⟩ := hcall out hout 0 _ _ _ _ hi
  obtain ⟨rfl, rfl⟩ := Prod.mk.inj (Option.some.inj (hrecord.symm.trans hrecord'))
  have hhighest := Val.num.inj (Option.some.inj (hval.symm.trans hval'))
  rw [← Val.num.inj hx] at hhighest
  exact absurd hhighest (by decide +kernel)

end DaapLog.MemoryMaximum

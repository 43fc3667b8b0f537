import DaapLog.RubyValues

/-!
What `process` does while it goes over the events of a stream: it pushes records to
the array `metrics`, notes memory samples in `@jobs`, and can stop with an exception,
which leaves `@jobs` as it is by then.
-/

namespace DaapLog.PluginActions

open DaapLog.CStrings
open DaapLog.OrderedHash
open DaapLog.RubyValues

inductive Action
  | push (new_rec : Record)
  | sample (job_key : Text) (time : Int) (new_mem : Val) (dup_rec : Record)
  | raise

/-- An entry of `@jobs`. -/
structure Job where
  timestamp : Int
  max_mem : ℚ
  samples : Nat

/-- The entry that a sample works on; a new one is created without samples. -/
def openJob (jobs : Hash Text Job) (job_key : Text) (time : Int) : Job :=
  (get jobs job_key).getD ⟨time, 0, 0⟩

/-- The entry behind a numeric sample. -/
def addSample (job : Job) (time : Int) (new_mem : ℚ) : Job :=
  if new_mem > job.max_mem then ⟨time, new_mem, job.samples + 1⟩
  else ⟨time, job.max_mem, job.samples + 1⟩

/-- `@jobs` and `metrics` behind a list of actions. -/
def perform : Hash Text Job → List Action → Hash Text Job × Option (List Record)
  | jobs, [] => (jobs, some [])
  | jobs, .push new_rec :: rest =>
      let r := perform jobs rest
      (r.1, r.2.map (new_rec :: ·))
  | jobs, .sample job_key time new_mem dup_rec :: rest =>
      let job := openJob jobs job_key time
      match new_mem.asNum with
      | none => (set jobs job_key job, none)
      | some x =>
          let r := perform (set jobs job_key (addSample job time x)) rest
          (r.1, r.2.map (dup_rec :: ·))
  | jobs, .raise :: _ => (jobs, none)

/-- The record that an action adds to `metrics`. -/
def Action.record? : Action → Option Record
  | push new_rec => some new_rec
  | sample _ _ _ dup_rec => some dup_rec
  | raise => none

def Action.Succeeds : Action → Prop
  | push _ => True
  | sample _ _ new_mem _ => new_mem.asNum.isSome
  | raise => False

/-- The actions end without an exception exactly if each of them does, and then
`metrics` holds their records. -/
theorem perform_eq_some_iff (jobs : Hash Text Job) (actions : List Action)
    (metrics : List Record) :
    (perform jobs actions).2 = some metrics ↔
      (∀ action ∈ actions, action.Succeeds) ∧ actions.filterMap Action.record? = metrics := by
  induction actions generalizing jobs metrics with
  | nil => simp [perform]
  | cons action rest ih =>
      rw [List.forall_mem_cons]
      cases action with
      | push new_rec =>
          simp only [perform, Option.map_eq_some_iff, ih, Action.Succeeds, true_and,
            List.filterMap_cons, Action.record?]
          constructor
          · rintro ⟨tail, ⟨hrest, rfl⟩, rfl⟩
            exact ⟨hrest, rfl⟩
          · rintro ⟨hrest, rfl⟩
            exact ⟨_, ⟨hrest, rfl⟩, rfl⟩
      | sample job_key time new_mem dup_rec =>
          cases hmem : new_mem.asNum with
          | none => simp [perform, hmem, Action.Succeeds]
          | some x =>
              simp only [perform, hmem, Option.map_eq_some_iff, ih, Action.Succeeds,
                Option.isSome_some, true_and, List.filterMap_cons, Action.record?]
              constructor
              · rintro ⟨tail, ⟨hrest, rfl⟩, rfl⟩
                exact ⟨hrest, rfl⟩
              · rintro ⟨hrest, rfl⟩
                exact ⟨_, ⟨hrest, rfl⟩, rfl⟩
      | raise => simp [perform, Action.Succeeds]

end DaapLog.PluginActions

import DaapLog.CaliperReports

/-!
The choice between the branches for messages without `metrics`, and which messages get
through their branch.
-/

namespace DaapLog.TextDispatch

open DaapLog.CStrings
open DaapLog.OrderedHash
open DaapLog.RubyValues
open DaapLog.PluginActions
open DaapLog.PluginMessages
open DaapLog.CaliperReports

def caliperTrigger : Text := ",desc=caliper".toList

/-- The first code whose trigger stands anywhere in the message. -/
def firstCode (message : Text) : Option Code :=
  Code.all.find? fun code => strstr message code.trigger

def textActions (rb : Runtime) (message : Text) : List Action :=
  if strstr message caliperTrigger then caliper_metrics rb message
  else
    match firstCode message with
    | none => []
    | some code => code.actions rb message

def triggers : List Text := caliperTrigger :: Code.all.map Code.trigger

/-- A message that is not a text is only asked whether it includes a trigger; a branch
that it enters fails at the first method for texts. -/
def messageActions (rb : Runtime) (message : Val) : List Action :=
  match message with
  | .str s => textActions rb s
  | _ => if ∀ trigger ∈ triggers, message.includes trigger = some false then [] else [.raise]

/-- The text gets through its branch without an exception. -/
def TextParses (message : Text) : Prop :=
  if strstr message caliperTrigger then
    ∀ code, caliperCode message = some code → CaliperParses message code
  else ∀ code, firstCode message = some code → ItemsValued code message

def MessageParses (message : Val) : Prop :=
  match message with
  | .str s => TextParses s
  | _ => ∀ trigger ∈ triggers, message.includes trigger = some false

/-- Seconds as time. -/
def Fields.Timed (new_rec : Fields) : Prop :=
  ∃ ts : Int, get new_rec "timestamp".toList = some (.num ts)

/-- What the branches for messages do: one raises, or skips the message, or pushes a
record with a time. -/
def MessageCases (parses : Prop) (actions : List Action) : Prop :=
  (¬parses ∧ actions = [.raise]) ∨ (parses ∧ actions = []) ∨
    (parses ∧ ∃ new_rec : Fields, Fields.Timed new_rec ∧ actions = [.push new_rec.toRecord])

theorem caliper_metrics_cases (rb : Runtime) (message : Text) :
    MessageCases (∀ code, caliperCode message = some code → CaliperParses message code)
      (caliper_metrics rb message) := by
  rw [caliper_metrics]
  cases hcode : caliperCode message with
  | none =>
      refine .inr (.inl ⟨?_, rfl⟩)
      rintro code h
      exact absurd h nofun
  | some code =>
      have hparses := caliperFields_isSome_iff rb message code
      simp only [Option.some.injEq, forall_eq']
      cases hfields : caliperFields rb message code with
      | none =>
          rw [hfields] at hparses
          exact .inl ⟨fun h => absurd (hparses.mpr h) (by simp), rfl⟩
      | some new_rec =>
          rw [hfields] at hparses
          rw [caliperFields] at hfields
          obtain ⟨r, -, hr⟩ := Option.map_eq_some_iff.mp hfields
          refine .inr (.inr ⟨hparses.mp rfl, new_rec, ?_, rfl⟩)
          rw [← hr]
          exact ⟨_, get_set_self _ _ _⟩

theorem textActions_cases (rb : Runtime) (message : Text) :
    MessageCases (TextParses message) (textActions rb message) := by
  rw [textActions, TextParses]
  split
  · exact caliper_metrics_cases rb message
  · cases hcode : firstCode message with
    | none =>
        refine .inr (.inl ⟨?_, rfl⟩)
        rintro code h
        exact absurd h nofun
    | some code =>
        simp only [Option.some.injEq, forall_eq']
        rcases code.actions_cases rb message with h | ⟨hitems, -, -, hnil⟩ | ⟨hitems, -, r, hr, hpush⟩
        · exact .inl h
        · exact .inr (.inl ⟨hitems, hnil⟩)
        · exact .inr (.inr ⟨hitems, r, hr.2, hpush⟩)

theorem messageActions_cases (rb : Runtime) (message : Val) :
    MessageCases (MessageParses message) (messageActions rb message) := by
  cases message with
  | str s => exact textActions_cases rb s
  | _ =>
      simp only [messageActions, MessageParses]
      split
      · next h => exact .inr (.inl ⟨h, rfl⟩)
      · next h => exact .inl ⟨h, rfl⟩

end DaapLog.TextDispatch

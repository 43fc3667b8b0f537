import Mathlib

/-!
Calls of an interface as functions on a state: they leave a state, a list of events and
tell how they end.
-/

namespace DaapLog.TracedCalls

variable {σ ε α β : Type*}

/-- A call returns, the process exits, the behaviour is undefined, or the call is still
going on. -/
inductive Ending (α : Type*)
  | returns (value : α)
  | exits (status : Int)
  | undefined
  | running
  deriving DecidableEq, Repr

def Ending.map (f : α → β) : Ending α → Ending β
  | .returns value => .returns (f value)
  | .exits status => .exits status
  | .undefined => .undefined
  | .running => .running

@[simp]
theorem Ending.map_eq_returns_iff {f : α → β} {ending : Ending α} {b : β} :
    ending.map f = .returns b ↔ ∃ a, ending = .returns a ∧ f a = b := by
  cases ending <;> simp [Ending.map]

abbrev Traced (σ ε α : Type*) := σ × List ε × Ending α

/-- A second call if the first returns. -/
def andThen (r : Traced σ ε α) (f : σ → α → Traced σ ε β) : Traced σ ε β :=
  match r.2.2 with
  | .returns a => ((f r.1 a).1, r.2.1 ++ (f r.1 a).2.1, (f r.1 a).2.2)
  | .exits status => (r.1, r.2.1, .exits status)
  | .undefined => (r.1, r.2.1, .undefined)
  | .running => (r.1, r.2.1, .running)

theorem andThen_of_returns {r : Traced σ ε α} {a : α} (h : r.2.2 = .returns a)
    (f : σ → α → Traced σ ε β) :
    andThen r f = ((f r.1 a).1, r.2.1 ++ (f r.1 a).2.1, (f r.1 a).2.2) := by
  rw [andThen, h]

@[simp]
theorem andThen_returns (s : σ) (a : α) (f : σ → α → Traced σ ε β) :
    andThen (s, [], .returns a) f = f s a := rfl

@[simp]
theorem andThen_assoc {γ : Type*} (r : Traced σ ε α) (f : σ → α → Traced σ ε β)
    (g : σ → β → Traced σ ε γ) :
    andThen (andThen r f) g = andThen r fun s a => andThen (f s a) g := by
  rcases r with ⟨s, events, ending⟩
  cases ending with
  | returns a =>
      rw [andThen_of_returns rfl f, andThen_of_returns rfl fun s a => andThen (f s a) g]
      rcases f s a with ⟨s', events', ending'⟩
      cases ending' with
      | returns b => simp only [andThen, List.append_assoc]
      | exits status => rfl
      | undefined => rfl
      | running => rfl
  | exits status => rfl
  | undefined => rfl
  | running => rfl

theorem andThen_returns_iff {r : Traced σ ε α} {f : σ → α → Traced σ ε β} {b : β} :
    (andThen r f).2.2 = .returns b ↔
      ∃ a, r.2.2 = .returns a ∧ (f r.1 a).2.2 = .returns b := by
  rw [andThen]
  split
  · next a ha => simp [ha]
  · next status h => simp [h]
  · next h => simp [h]
  · next h => simp [h]

theorem andThen_eq_returns_iff {r : Traced σ ε α} {f : σ → α → Traced σ ε β} {s : σ}
    {events : List ε} {b : β} :
    andThen r f = (s, events, .returns b) ↔ ∃ s' front a back, r = (s', front, .returns a) ∧
      f s' a = (s, back, .returns b) ∧ events = front ++ back := by
  constructor
  · intro h
    obtain ⟨a, ha, hb⟩ := andThen_returns_iff.mp (congrArg (·.2.2) h)
    rw [andThen_of_returns ha, Prod.mk.injEq, Prod.mk.injEq] at h
    obtain ⟨hs, hevents, -⟩ := h
    exact ⟨r.1, r.2.1, a, (f r.1 a).2.1, by rw [← ha], by rw [← hs, ← hb], hevents.symm⟩
  · rintro ⟨s', front, a, back, rfl, hf, rfl⟩
    rw [andThen_of_returns rfl, hf]

theorem andThen_state {P : σ → Prop} {r : Traced σ ε α} {f : σ → α → Traced σ ε β}
    (hr : P r.1) (hf : ∀ a, r.2.2 = .returns a → P (f r.1 a).1) : P (andThen r f).1 := by
  rw [andThen]
  split
  · next a ha => exact hf a ha
  · exact hr
  · exact hr
  · exact hr

theorem mem_andThen_events {r : Traced σ ε α} {f : σ → α → Traced σ ε β} {event : ε}
    (h : event ∈ (andThen r f).2.1) :
    event ∈ r.2.1 ∨ ∃ a, r.2.2 = .returns a ∧ event ∈ (f r.1 a).2.1 := by
  rw [andThen] at h
  split at h
  · next a ha => exact (List.mem_append.mp h).imp_right fun h => ⟨a, ha, h⟩
  · exact .inl h
  · exact .inl h
  · exact .inl h

theorem mem_andThen_of_first {r : Traced σ ε α} {f : σ → α → Traced σ ε β} {event : ε}
    (h : event ∈ r.2.1) : event ∈ (andThen r f).2.1 := by
  rw [andThen]
  split
  · exact List.mem_append_left _ h
  · exact h
  · exact h
  · exact h

theorem mem_andThen_of_second {r : Traced σ ε α} {f : σ → α → Traced σ ε β} {event : ε} {a : α}
    (ha : r.2.2 = .returns a) (h : event ∈ (f r.1 a).2.1) : event ∈ (andThen r f).2.1 := by
  rw [andThen_of_returns ha]
  exact List.mem_append_right _ h

theorem countP_andThen {kind : ε → Bool} {r : Traced σ ε α} {f : σ → α → Traced σ ε β}
    (h : ∀ a, ∀ event ∈ (f r.1 a).2.1, kind event = false) :
    (andThen r f).2.1.countP kind = r.2.1.countP kind := by
  rw [andThen]
  split
  · next a ha =>
      have hsecond : (f r.1 a).2.1.countP kind = 0 :=
        List.countP_eq_zero.mpr fun event hevent => by simp [h a event hevent]
      rw [List.countP_append, hsecond, Nat.add_zero]
  · rfl
  · rfl
  · rfl

theorem filterMap_andThen {γ : Type*} {g : ε → Option γ} {r : Traced σ ε α}
    {f : σ → α → Traced σ ε β} (h : ∀ a, ∀ event ∈ (f r.1 a).2.1, g event = none) :
    (andThen r f).2.1.filterMap g = r.2.1.filterMap g := by
  rw [andThen]
  split
  · next a ha =>
      rw [List.filterMap_append, List.filterMap_eq_nil_iff.mpr (h a), List.append_nil]
  · rfl
  · rfl
  · rfl

end DaapLog.TracedCalls

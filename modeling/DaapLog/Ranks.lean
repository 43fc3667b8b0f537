import Mathlib

/-!
Numbering the members of a list that are kept: the rank of a place is how many members in
front of it are.
-/

namespace DaapLog.Ranks

variable {α : Type*} (keep : α → Bool)

def rank (l : List α) (i : Nat) : Nat := (l.take i).countP keep

@[simp]
theorem rank_cons (a : α) (l : List α) (i : Nat) :
    rank keep (a :: l) (i + 1) = rank keep l i + if keep a then 1 else 0 := by
  rw [rank, List.take_succ_cons, List.countP_cons, rank]

theorem rank_le (l : List α) (i : Nat) : rank keep l i ≤ i :=
  List.countP_le_length.trans (List.length_take_le i l)

theorem rank_mono (l : List α) {i j : Nat} (h : i ≤ j) : rank keep l i ≤ rank keep l j :=
  (List.take_sublist_take_left h).countP_le

variable {keep}

theorem rank_succ {l : List α} {i : Nat} {a : α} (hi : l[i]? = some a) (ha : keep a = true) :
    rank keep l (i + 1) = rank keep l i + 1 := by
  rw [rank, List.take_add_one, hi, List.countP_append, Option.toList_some, List.countP_singleton,
    if_pos ha, rank]

theorem rank_eq_self_iff {l : List α} {i : Nat} (hi : i ≤ l.length) :
    rank keep l i = i ↔ ∀ k < i, ∃ a, l[k]? = some a ∧ keep a = true := by
  have hlength : (l.take i).length = i := List.length_take_of_le hi
  have hall : rank keep l i = i ↔ ∀ a ∈ l.take i, keep a = true := by
    rw [← List.countP_eq_length, hlength]
    rfl
  rw [hall]
  constructor
  · intro h k hk
    have hkl : k < l.length := hk.trans_le hi
    refine ⟨l[k], List.getElem?_eq_getElem hkl, h _ ?_⟩
    exact List.mem_take_iff_getElem.mpr ⟨k, lt_min hk hkl, rfl⟩
  · intro h a ha
    obtain ⟨k, hk, rfl⟩ := List.mem_take_iff_getElem.mp ha
    obtain ⟨a, ha, hkeep⟩ := h k (lt_min_iff.mp hk).1
    rwa [(List.getElem?_eq_some_iff.mp ha).2]

theorem getElem?_filter_iff {l : List α} {j : Nat} {a : α} :
    (l.filter keep)[j]? = some a ↔
      ∃ i, l[i]? = some a ∧ keep a = true ∧ rank keep l i = j := by
  induction l generalizing j with
  | nil => exact iff_of_false nofun fun ⟨i, hi, _⟩ => absurd hi nofun
  | cons b l ih =>
      have hlater : (∃ i, (b :: l)[i]? = some a ∧ keep a = true ∧ rank keep (b :: l) i = j) ↔
          b = a ∧ keep a = true ∧ j = 0 ∨
            ∃ i, l[i]? = some a ∧ keep a = true ∧ rank keep (b :: l) (i + 1) = j := by
        constructor
        · rintro ⟨i, hi, hkeep, hrank⟩
          cases i with
          | zero => exact .inl ⟨Option.some.inj hi, hkeep, hrank.symm⟩
          | succ i => exact .inr ⟨i, hi, hkeep, hrank⟩
        · rintro (⟨rfl, hkeep, rfl⟩ | ⟨i, hi, hkeep, hrank⟩)
          · exact ⟨0, rfl, hkeep, rfl⟩
          · exact ⟨i + 1, hi, hkeep, hrank⟩
      rw [hlater]
      simp only [rank_cons]
      cases hb : keep b with
      | true =>
          rw [List.filter_cons_of_pos hb]
          cases j with
          | zero =>
              constructor
              · intro h
                obtain rfl := Option.some.inj h
                exact .inl ⟨rfl, hb, rfl⟩
              · rintro (⟨rfl, -, -⟩ | ⟨i, -, -, hrank⟩)
                · rfl
                · exact absurd hrank (Nat.succ_ne_zero _)
          | succ j => simp [ih]
      | false =>
          rw [List.filter_cons_of_neg (by simp [hb]), ih]
          have hother : ¬(b = a ∧ keep a = true ∧ j = 0) := by
            rintro ⟨rfl, hkeep, -⟩
            exact absurd (hb.symm.trans hkeep) (by decide)
          simp [hother]

theorem getElem?_append_eq_some_iff {l m : List α} {i : Nat} {a : α} :
    (l ++ m)[i]? = some a ↔ l[i]? = some a ∨ ∃ j, m[j]? = some a ∧ l.length + j = i := by
  rw [List.getElem?_append]
  split
  · next hi =>
      refine ⟨.inl, fun h => h.resolve_right ?_⟩
      rintro ⟨j, -, rfl⟩
      omega
  · next hi =>
      constructor
      · intro h
        exact .inr ⟨i - l.length, h, by omega⟩
      · rintro (h | ⟨j, h, rfl⟩)
        · exact absurd (List.getElem?_eq_some_iff.mp h).1 hi
        · rwa [Nat.add_sub_cancel_left]

/-- Places that matter keep their numbers when each is kept under a number that matters:
a first one that does not would have the number of one that does. -/
theorem rank_eq_self_of_matters (Matters : Nat → Prop) {l : List α} {n : Nat}
    (hkept : ∀ i < n, Matters i → ∃ a, l[i]? = some a ∧ keep a = true)
    (hmatters : ∀ i < n, Matters i → Matters (rank keep l i)) {i : Nat} (hi : i < n)
    (h : Matters i) : rank keep l i = i := by
  induction i using Nat.strong_induction_on with
  | _ i ih =>
      rcases (rank_le keep l i).lt_or_eq with hlt | heq
      · have hj := hlt.trans hi
        have hmatter := hmatters i hi h
        obtain ⟨a, ha, hkeep⟩ := hkept _ hj hmatter
        have hnext := rank_succ ha hkeep
        rw [ih _ hlt hj hmatter] at hnext
        have hmono : rank keep l (rank keep l i + 1) ≤ rank keep l i :=
            rank_mono keep l hlt
        omega
      · exact heq

end DaapLog.Ranks

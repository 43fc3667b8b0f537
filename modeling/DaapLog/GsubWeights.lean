import DaapLog.PatternMatches

/-!
When a chain of replacements gives a text back. Characters have weights; if what is put
in for a match always weighs less than the match, the text stays as it is only where no
pattern of the chain is found.
-/

namespace DaapLog.GsubWeights

open DaapLog.CStrings
open DaapLog.LinearPatterns
open DaapLog.PatternMatches

variable {w : Char → Nat}

def weight (w : Char → Nat) (text : Text) : Nat := (text.map w).sum

@[simp]
theorem weight_nil : weight w [] = 0 := rfl

@[simp]
theorem weight_cons (c : Char) (text : Text) : weight w (c :: text) = w c + weight w text := by
  rw [weight, List.map_cons, List.sum_cons, weight]

@[simp]
theorem weight_append (front back : Text) :
    weight w (front ++ back) = weight w front + weight w back := by
  rw [weight, List.map_append, List.sum_append, weight, weight]

theorem weight_pos (hw : ∀ c, 0 < w c) {text : Text} (h : text ≠ []) : 0 < weight w text := by
  obtain ⟨c, rest, rfl⟩ := List.exists_cons_of_ne_nil h
  rw [weight_cons]
  exact Nat.add_pos_left (hw c) _

/-- A change of texts that leaves a text alone or makes it lighter. -/
def Lowers (w : Char → Nat) (f : Text → Text) : Prop :=
  ∀ text, f text = text ∨ weight w (f text) < weight w text

theorem Lowers.le {f : Text → Text} (hf : Lowers w f) (text : Text) :
    weight w (f text) ≤ weight w text := by
  rcases hf text with h | h
  · rw [h]
  · exact h.le

theorem lowers_id : Lowers w fun text => text := fun _ => .inl rfl

theorem Lowers.comp {f g : Text → Text} (hg : Lowers w g) (hf : Lowers w f) :
    Lowers w fun text => g (f text) := by
  intro text
  rcases hf text with h | h
  · simp only [h]
    exact hg text
  · exact .inr ((hg.le (f text)).trans_lt h)

theorem foldl_lowers {changes : List (Text → Text)} (h : ∀ f ∈ changes, Lowers w f) :
    Lowers w (changes.foldl fun text f => f text) := by
  induction changes with
  | nil => exact lowers_id
  | cons f changes ih =>
      rw [List.forall_mem_cons] at h
      exact (ih h.2).comp h.1

theorem foldl_eq_self_iff {changes : List (Text → Text)} (h : ∀ f ∈ changes, Lowers w f)
    (text : Text) :
    changes.foldl (fun text f => f text) text = text ↔ ∀ f ∈ changes, f text = text := by
  induction changes with
  | nil => exact iff_of_true rfl (by simp)
  | cons f changes ih =>
      rw [List.forall_mem_cons] at h ⊢
      rw [List.foldl_cons, ← ih h.2]
      constructor
      · intro hsame
        rcases h.1 text with hf | hlt
        · rw [hf] at hsame
          exact ⟨hf, hsame⟩
        · have hle := (foldl_lowers h.2).le (f text)
          rw [hsame] at hle
          exact absurd hlt (Nat.not_lt.mpr hle)
      · rintro ⟨hf, hrest⟩
        rw [hf, hrest]

/-- What is put in for a match weighs less than the match. -/
def Shrinks (w : Char → Nat) (pattern : Pattern) (replace : List Text → Text) : Prop :=
  ∀ parts, List.Forall₂ (fun a part => Fits a.1 part) pattern parts →
    weight w (replace parts) < weight w parts.flatten

section Replacing

variable {pattern : Pattern} {replace : List Text → Text}

theorem gsubFrom_succ (h : Shrinks w pattern replace) (fuel : Nat) (prev : Option Char)
    (text : Text) :
    (search pattern prev text = none ∧ gsubFrom pattern replace (fuel + 1) prev text = text) ∨
    ∃ before parts rest last, text = before ++ (parts.flatten ++ rest) ∧
      weight w (replace parts) < weight w parts.flatten ∧
      gsubFrom pattern replace (fuel + 1) prev text =
        before ++ replace parts ++ gsubFrom pattern replace fuel last rest := by
  rw [gsubFrom]
  cases hsearch : search pattern prev text with
  | none => exact .inl ⟨rfl, rfl⟩
  | some r =>
      obtain ⟨before, parts, rest⟩ := r
      obtain ⟨htext, hmatch⟩ := search_sound hsearch
      have hlt := h parts (matchHere_sound hmatch).1
      right
      cases hlast : parts.flatten.getLast? with
      | some c => exact ⟨before, parts, rest, some c, htext, hlt, by simp only [hlast]⟩
      | none =>
          rw [List.getLast?_eq_none_iff.mp hlast, weight_nil] at hlt
          exact absurd hlt (Nat.not_lt_zero _)

theorem gsubFrom_weight_le (h : Shrinks w pattern replace) (fuel : Nat) (prev : Option Char)
    (text : Text) : weight w (gsubFrom pattern replace fuel prev text) ≤ weight w text := by
  induction fuel generalizing prev text with
  | zero => rfl
  | succ fuel ih =>
      rcases gsubFrom_succ h fuel prev text with ⟨-, hsame⟩ | ⟨before, parts, rest, last, rfl, hlt, heq⟩
      · rw [hsame]
      · have hrest := ih last rest
        rw [heq]
        simp only [weight_append]
        omega

/-- A replacement of lighter texts leaves a text alone exactly if the pattern is not
found in it. -/
theorem gsub_cases (h : Shrinks w pattern replace) (text : Text) :
    ((search pattern none text).isSome = false ∧ gsub pattern replace text = text) ∨
      ((search pattern none text).isSome = true ∧
        weight w (gsub pattern replace text) < weight w text) := by
  cases hsearch : search pattern none text with
  | none =>
      refine .inl ⟨rfl, ?_⟩
      rw [gsub, gsubFrom, hsearch]
  | some r =>
      refine .inr ⟨rfl, ?_⟩
      rcases gsubFrom_succ h text.length none text with
        ⟨hnone, -⟩ | ⟨before, parts, rest, last, rfl, hlt, heq⟩
      · rw [hnone] at hsearch
        exact absurd hsearch nofun
      · have hrest := gsubFrom_weight_le h (before ++ (parts.flatten ++ rest)).length last rest
        rw [gsub, heq]
        simp only [weight_append]
        omega

theorem gsub_lowers (h : Shrinks w pattern replace) : Lowers w (gsub pattern replace) := by
  intro text
  rcases gsub_cases h text with ⟨-, hsame⟩ | ⟨-, hlt⟩
  · exact .inl hsame
  · exact .inr hlt

theorem gsub_eq_self_iff (h : Shrinks w pattern replace) (text : Text) :
    gsub pattern replace text = text ↔ (search pattern none text).isSome = false := by
  rcases gsub_cases h text with ⟨hnone, hsame⟩ | ⟨hsome, hlt⟩
  · exact iff_of_true hsame hnone
  · refine iff_of_false ?_ (by rw [hsome]; exact nofun)
    intro hsame
    rw [hsame] at hlt
    exact absurd hlt (Nat.lt_irrefl _)

end Replacing

section Patterns

theorem exists_mem_flatten {pattern : Pattern} {parts : List Text}
    (h : List.Forall₂ (fun a part => Fits a.1 part) pattern parts) {p : Char → Bool} {g : Nat}
    (hone : (.one p, g) ∈ pattern) : ∃ c ∈ parts.flatten, p c := by
  induction h with
  | nil => exact absurd hone List.not_mem_nil
  | cons hfits _ ih =>
      rw [List.flatten_cons]
      rcases List.mem_cons.mp hone with heq | hmem
      · subst heq
        obtain ⟨c, rfl, hc⟩ := hfits
        exact ⟨c, List.mem_cons_self, hc⟩
      · obtain ⟨c, hc, hp⟩ := ih hmem
        exact ⟨c, List.mem_append_right _ hc, hp⟩

theorem flatten_ne_nil {pattern : Pattern} {parts : List Text}
    (h : List.Forall₂ (fun a part => Fits a.1 part) pattern parts) {p : Char → Bool} {g : Nat}
    (hone : (.one p, g) ∈ pattern) : parts.flatten ≠ [] := by
  obtain ⟨c, hc, -⟩ := exists_mem_flatten h hone
  exact List.ne_nil_of_mem hc

theorem shrinks_remove (hw : ∀ c, 0 < w c) {pattern : Pattern} {p : Char → Bool} {g : Nat}
    (hone : (.one p, g) ∈ pattern) : Shrinks w pattern fun _ => [] := by
  intro parts hparts
  exact weight_pos hw (flatten_ne_nil hparts hone)

theorem remove_lowers (hw : ∀ c, 0 < w c) {pattern : Pattern} {p : Char → Bool} {g : Nat}
    (hone : (.one p, g) ∈ pattern) : Lowers w (remove pattern) :=
  gsub_lowers (shrinks_remove hw hone)

theorem remove_eq_self_iff (hw : ∀ c, 0 < w c) {pattern : Pattern} {p : Char → Bool} {g : Nat}
    (hone : (.one p, g) ∈ pattern) (text : Text) :
    remove pattern text = text ↔ (search pattern none text).isSome = false :=
  gsub_eq_self_iff (shrinks_remove hw hone) text

theorem capture_cons (a : Atom × Nat) (k : Pattern) (part : Text) (parts : List Text) (g : Nat) :
    capture (a :: k) (part :: parts) g =
      if a.2 = g then part ++ capture k parts g else capture k parts g := by
  rw [capture, List.zip_cons_cons, List.filter_cons]
  by_cases hg : a.2 = g <;> simp [hg, capture]

theorem weight_capture_le (k : Pattern) (parts : List Text) (g : Nat) :
    weight w (capture k parts g) ≤ weight w parts.flatten := by
  induction k generalizing parts with
  | nil => exact Nat.zero_le _
  | cons a k ih =>
      cases parts with
      | nil => exact Nat.zero_le _
      | cons part parts =>
          have hrest := ih parts
          rw [capture_cons, List.flatten_cons, weight_append]
          split
          · rw [weight_append]
            omega
          · omega

theorem shrinks_of_plus {p : Char → Bool} {k : Pattern} {g : Nat} {text : Text} (hg : g ≠ 0)
    (htext : ∀ c, p c → weight w text < w c) :
    Shrinks w (plus p 0 ++ k) fun parts => text ++ capture (plus p 0 ++ k) parts g := by
  intro parts hparts
  obtain ⟨part, parts', ⟨c, rfl, hc⟩, htail, rfl⟩ := List.forall₂_cons_left_iff.mp hparts
  obtain ⟨more, rest, -, -, rfl⟩ := List.forall₂_cons_left_iff.mp htail
  have hgroup := weight_capture_le (w := w) k rest g
  have hlt := htext c hc
  simp only [plus, cls, LinearPatterns.star, List.cons_append, List.nil_append, capture_cons,
    if_neg hg.symm, List.flatten_cons, weight_append, weight_cons]
  omega

end Patterns

end DaapLog.GsubWeights

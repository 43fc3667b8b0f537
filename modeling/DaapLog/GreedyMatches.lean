import DaapLog.GsubWeights

/-!
Which match the matcher of linear patterns takes: a repetition is as long as what follows
it allows, and words are read as they stand.
-/

namespace DaapLog.GreedyMatches

open DaapLog.CStrings
open DaapLog.LinearPatterns
open DaapLog.PatternMatches
open DaapLog.GsubWeights

section Repetition

variable {p : Char → Bool} {k : Option Char → Text → Option (List Text × Text)}

/-- A repetition takes a word if what follows matches behind it and behind no longer one. -/
theorem matchMany_longest {prev : Option Char} {word rest : Text} {r : List Text × Text}
    (hword : ∀ c ∈ word, p c) (hk : k (lastChar prev word) rest = some r)
    (hlongest : ∀ more rest', more ≠ [] → rest = more ++ rest' → (∀ c ∈ more, p c) →
      k (lastChar (lastChar prev word) more) rest' = none) :
    matchMany p k prev (word ++ rest) = some (word, r) := by
  induction word generalizing prev with
  | nil =>
      rw [lastChar] at hk
      cases rest with
      | nil => rw [List.append_nil, matchMany, hk]; rfl
      | cons c rest =>
          rw [List.nil_append, matchMany]
          split
          · next hc =>
              cases hmore : matchMany p k (some c) rest with
              | none => simp only [hk, Option.map_some]
              | some found =>
                  obtain ⟨more, r'⟩ := found
                  obtain ⟨rest', rfl, hall, hfound⟩ := matchMany_sound hmore
                  have hnone := hlongest (c :: more) rest' (List.cons_ne_nil _ _) rfl
                    (List.forall_mem_cons.mpr ⟨hc, hall⟩)
                  rw [lastChar, lastChar, hfound] at hnone
                  exact absurd hnone (Option.some_ne_none _)
          · rw [hk]; rfl
  | cons c word ih =>
      rw [List.forall_mem_cons] at hword
      rw [lastChar] at hk
      rw [List.cons_append, matchMany, if_pos hword.1, ih hword.2 hk hlongest]

end Repetition

section Parts

variable {k : Pattern} {prev : Option Char} {rest rest' : Text} {parts : List Text}

theorem matchHere_star {p : Char → Bool} {word : Text} (g : Nat) (hword : ∀ c ∈ word, p c)
    (hk : matchHere k (lastChar prev word) rest = some (parts, rest'))
    (hlongest : ∀ more rest', more ≠ [] → rest = more ++ rest' → (∀ c ∈ more, p c) →
      ¬Starts k (lastChar (lastChar prev word) more) rest') :
    matchHere (star p g ++ k) prev (word ++ rest) = some (word :: parts, rest') := by
  have hmany : matchMany p (matchHere k) prev (word ++ rest) = some (word, parts, rest') := by
    refine matchMany_longest hword hk fun more rest' hne hrest hmore => ?_
    rw [← Option.not_isSome_iff_eq_none, matchHere_isSome_iff]
    exact hlongest more rest' hne hrest hmore
  rw [LinearPatterns.star, List.singleton_append, matchHere, hmany]
  rfl

/-- A word that fits and is not followed by a character that does is taken whole. -/
theorem matchHere_plus {p : Char → Bool} {c : Char} {word : Text} (g : Nat)
    (hword : ∀ c' ∈ c :: word, p c') (hrest : ∀ c' ∈ rest.head?, ¬p c')
    (hk : matchHere k (lastChar prev (c :: word)) rest = some (parts, rest')) :
    matchHere (plus p g ++ k) prev (c :: word ++ rest) = some ([c] :: word :: parts, rest') := by
  rw [List.forall_mem_cons] at hword
  have hstar : matchHere (star p g ++ k) (some c) (word ++ rest) = some (word :: parts, rest') := by
    refine matchHere_star g hword.2 hk fun more rest' hne hrest' hmore => ?_
    obtain ⟨d, more, rfl⟩ := List.exists_cons_of_ne_nil hne
    rw [List.forall_mem_cons] at hmore
    rw [hrest'] at hrest
    exact absurd hmore.1 (hrest d rfl)
  rw [plus, cls, List.append_assoc, List.singleton_append, List.cons_append, matchHere,
    if_pos hword.1, hstar]
  rfl

@[simp]
theorem matchHere_litFold (word : Text) (g : Nat) (k : Pattern) (prev : Option Char)
    (text : Text) :
    matchHere (litFold word g ++ k) prev (word ++ text) =
      (matchHere k (lastChar prev word) text).map fun r =>
        (word.map (fun c => [c]) ++ r.1, r.2) := by
  induction word generalizing prev with
  | nil =>
      rw [lastChar]
      cases h : matchHere k prev text <;> simp [litFold, h]
  | cons c word ih =>
      have hsame : sameLetter c c = true := by
        rw [sameLetter, beq_self_eq_true, Bool.true_or, Bool.true_or]
      rw [litFold, List.map_cons, List.cons_append, List.cons_append, matchHere, if_pos hsame,
        ← litFold, ih, Option.map_map, lastChar]
      rfl

@[simp]
theorem capture_star (p : Char → Bool) (g : Nat) (k : Pattern) (word : Text)
    (parts : List Text) (g' : Nat) :
    capture (star p g ++ k) (word :: parts) g' =
      if g = g' then word ++ capture k parts g' else capture k parts g' := by
  rw [LinearPatterns.star, List.singleton_append, capture_cons]

@[simp]
theorem capture_plus (p : Char → Bool) (g : Nat) (k : Pattern) (c : Char) (word : Text)
    (parts : List Text) (g' : Nat) :
    capture (plus p g ++ k) ([c] :: word :: parts) g' =
      if g = g' then c :: word ++ capture k parts g' else capture k parts g' := by
  rw [plus, cls, List.append_assoc, List.singleton_append, capture_cons, capture_star]
  split
  · rfl
  · rfl

@[simp]
theorem capture_litFold (word : Text) {g g' : Nat} (hne : g ≠ g') (k : Pattern)
    (parts : List Text) :
    capture (litFold word g ++ k) (word.map (fun c => [c]) ++ parts) g' = capture k parts g' := by
  induction word with
  | nil => rfl
  | cons c word ih =>
      rw [litFold, List.map_cons, List.map_cons, List.cons_append, List.cons_append, capture_cons,
        if_neg hne]
      exact ih

end Parts

section Found

variable {k : Pattern} {prev : Option Char} {text : Text}

theorem starts_append {front back : Pattern} (h : Starts (front ++ back) prev text) :
    ∃ before prev' rest, text = before ++ rest ∧ Starts back prev' rest := by
  induction front generalizing prev text with
  | nil => exact ⟨[], prev, text, rfl, h⟩
  | cons a front ih =>
      obtain ⟨a, g⟩ := a
      cases a with
      | one p =>
          obtain ⟨c, rest, rfl, -, hrest⟩ := h
          obtain ⟨before, prev', rest', rfl, hback⟩ := ih hrest
          exact ⟨c :: before, prev', rest', rfl, hback⟩
      | many p =>
          obtain ⟨word, rest, rfl, -, hrest⟩ := h
          obtain ⟨before, prev', rest', rfl, hback⟩ := ih hrest
          exact ⟨word ++ before, prev', rest', (List.append_assoc _ _ _).symm, hback⟩
      | bol => exact ih h.2
      | eol => exact ih h.2

theorem starts_litFold_sound {word : Text} {g : Nat} (h : Starts (litFold word g ++ k) prev text) :
    ∃ found rest, text = found ++ rest ∧
      List.Forall₂ (fun c d => sameLetter c d = true) word found := by
  induction word generalizing prev text with
  | nil => exact ⟨[], text, rfl, .nil⟩
  | cons c word ih =>
      obtain ⟨d, rest, rfl, hd, hrest⟩ := h
      obtain ⟨found, rest', rfl, hfound⟩ := ih hrest
      exact ⟨d :: found, rest', rfl, .cons hd hfound⟩

/-- What a word without case stands for somewhere in a pattern is in the text. -/
theorem search_litFold_sound {front : Pattern} {word : Text} {g : Nat}
    (h : (search (front ++ (litFold word g ++ k)) none text).isSome) :
    ∃ found, found <:+: text ∧ List.Forall₂ (fun c d => sameLetter c d = true) word found := by
  obtain ⟨before, back, rfl, hstarts⟩ := (search_isSome_iff _ _ _).mp h
  obtain ⟨before', prev', rest, rfl, hword⟩ := starts_append hstarts
  obtain ⟨found, rest', rfl, hfound⟩ := starts_litFold_sound hword
  exact ⟨found, ⟨before ++ before', rest', by simp⟩, hfound⟩

end Found

end DaapLog.GreedyMatches

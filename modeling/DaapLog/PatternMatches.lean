import DaapLog.LinearPatterns

/-!
What the matcher of linear patterns finds: the parts of a match fit the atoms of the
pattern, and there is a match whenever some way to cut the text fits them.
-/

namespace DaapLog.PatternMatches

open DaapLog.CStrings
open DaapLog.LinearPatterns

/-- The texts that an atom can stand for. -/
def Fits : Atom → Text → Prop
  | .one p, part => ∃ c, part = [c] ∧ p c
  | .many p, part => ∀ c ∈ part, p c
  | .bol, part => part = []
  | .eol, part => part = []

/-- The character in front of what is left when a word has been read behind `prev`. -/
def lastChar : Option Char → Text → Option Char
  | prev, [] => prev
  | _, c :: word => lastChar (some c) word

/-- Some match starts the text. -/
def Starts : Pattern → Option Char → Text → Prop
  | [], _, _ => True
  | (.one p, _) :: k, _, text => ∃ c rest, text = c :: rest ∧ p c ∧ Starts k (some c) rest
  | (.many p, _) :: k, prev, text =>
      ∃ word rest, text = word ++ rest ∧ (∀ c ∈ word, p c) ∧ Starts k (lastChar prev word) rest
  | (.bol, _) :: k, prev, text => atBol prev text ∧ Starts k prev text
  | (.eol, _) :: k, prev, text => atEol text ∧ Starts k prev text

@[simp]
theorem lastChar_append (prev : Option Char) (word word' : Text) :
    lastChar prev (word ++ word') = lastChar (lastChar prev word) word' := by
  induction word generalizing prev with
  | nil => rfl
  | cons c word ih => exact ih (some c)

@[simp]
theorem lastChar_concat (prev : Option Char) (word : Text) (c : Char) :
    lastChar prev (word ++ [c]) = some c := by
  rw [lastChar_append, lastChar, lastChar]

section Repetition

variable {p : Char → Bool} {k : Option Char → Text → Option (List Text × Text)}

theorem matchMany_stop {prev : Option Char} {text word : Text} {r : List Text × Text}
    (h : (k prev text).map ([], ·) = some (word, r)) :
    ∃ rest, text = word ++ rest ∧ (∀ c ∈ word, p c) ∧ k (lastChar prev word) rest = some r := by
  obtain ⟨r', hr', heq⟩ := Option.map_eq_some_iff.mp h
  obtain ⟨rfl, rfl⟩ := Prod.mk.inj heq
  exact ⟨text, rfl, by simp, hr'⟩

theorem matchMany_sound {prev : Option Char} {text word : Text} {r : List Text × Text}
    (h : matchMany p k prev text = some (word, r)) :
    ∃ rest, text = word ++ rest ∧ (∀ c ∈ word, p c) ∧ k (lastChar prev word) rest = some r := by
  induction text generalizing prev word with
  | nil => exact matchMany_stop h
  | cons c text ih =>
      rw [matchMany] at h
      split at h
      · next hc =>
          split at h
          · next r' hr' =>
              obtain ⟨rfl, rfl⟩ := Prod.mk.inj (Option.some.inj h)
              obtain ⟨rest, rfl, hword, hk⟩ := ih hr'
              exact ⟨rest, rfl, List.forall_mem_cons.mpr ⟨hc, hword⟩, hk⟩
          · exact matchMany_stop h
      · exact matchMany_stop h

theorem matchMany_complete {prev : Option Char} {word rest : Text} (hword : ∀ c ∈ word, p c)
    (hk : (k (lastChar prev word) rest).isSome) :
    (matchMany p k prev (word ++ rest)).isSome := by
  induction word generalizing prev with
  | nil =>
      rw [lastChar] at hk
      cases rest with
      | nil => simpa [matchMany] using hk
      | cons c rest =>
          rw [List.nil_append, matchMany]
          split
          · cases matchMany p k (some c) rest with
            | some r => rfl
            | none => simpa using hk
          · simpa using hk
  | cons c word ih =>
      rw [List.forall_mem_cons] at hword
      rw [List.cons_append, matchMany, if_pos hword.1]
      obtain ⟨r, hr⟩ := Option.isSome_iff_exists.mp (ih hword.2 hk)
      rw [hr]
      rfl

theorem matchMany_all {prev : Option Char} {text : Text} (htext : ∀ c ∈ text, p c) :
    matchMany p (matchHere []) prev text = some (text, [], []) := by
  induction text generalizing prev with
  | nil => rfl
  | cons c text ih =>
      rw [List.forall_mem_cons] at htext
      rw [matchMany, if_pos htext.1, ih htext.2]

end Repetition

section Anchors

variable {test : Prop} [Decidable test] {found : Option (List Text × Text)}

theorem anchor_eq_some {parts : List Text} {rest : Text}
    (h : (if test then found.map fun r => ([] :: r.1, r.2) else none) = some (parts, rest)) :
    ∃ parts', parts = [] :: parts' ∧ found = some (parts', rest) := by
  split at h
  · obtain ⟨r, hr, heq⟩ := Option.map_eq_some_iff.mp h
    obtain ⟨rfl, rfl⟩ := Prod.mk.inj heq
    exact ⟨r.1, rfl, hr⟩
  · exact absurd h nofun

theorem anchor_isSome_iff (f : List Text × Text → List Text × Text) :
    (if test then found.map f else none).isSome ↔ test ∧ found.isSome := by
  split
  · next h => rw [Option.isSome_map, and_iff_right h]
  · next h => exact iff_of_false nofun fun hboth => h hboth.1

end Anchors

theorem matchHere_sound {pattern : Pattern} {prev : Option Char} {text rest : Text}
    {parts : List Text} (h : matchHere pattern prev text = some (parts, rest)) :
    List.Forall₂ (fun a part => Fits a.1 part) pattern parts ∧ text = parts.flatten ++ rest := by
  induction pattern generalizing prev text parts with
  | nil =>
      obtain ⟨rfl, rfl⟩ := Prod.mk.inj (Option.some.inj h)
      exact ⟨.nil, rfl⟩
  | cons a k ih =>
      obtain ⟨a, g⟩ := a
      cases a with
      | one p =>
          cases text with
          | nil => exact absurd h nofun
          | cons c text =>
              rw [matchHere] at h
              split at h
              · next hc =>
                  obtain ⟨r, hr, heq⟩ := Option.map_eq_some_iff.mp h
                  obtain ⟨rfl, rfl⟩ := Prod.mk.inj heq
                  obtain ⟨hparts, rfl⟩ := ih hr
                  exact ⟨.cons ⟨c, rfl, hc⟩ hparts, rfl⟩
              · exact absurd h nofun
      | many p =>
          rw [matchHere] at h
          obtain ⟨r, hr, heq⟩ := Option.map_eq_some_iff.mp h
          obtain ⟨rfl, rfl⟩ := Prod.mk.inj heq
          obtain ⟨rest', rfl, hword, hk⟩ := matchMany_sound hr
          obtain ⟨hparts, rfl⟩ := ih hk
          exact ⟨.cons hword hparts, by rw [List.flatten_cons, List.append_assoc]⟩
      | bol =>
          obtain ⟨parts', rfl, hk⟩ := anchor_eq_some h
          obtain ⟨hparts, htext⟩ := ih hk
          exact ⟨.cons rfl hparts, htext⟩
      | eol =>
          obtain ⟨parts', rfl, hk⟩ := anchor_eq_some h
          obtain ⟨hparts, htext⟩ := ih hk
          exact ⟨.cons rfl hparts, htext⟩

theorem matchHere_isSome_iff (pattern : Pattern) (prev : Option Char) (text : Text) :
    (matchHere pattern prev text).isSome ↔ Starts pattern prev text := by
  induction pattern generalizing prev text with
  | nil => exact iff_of_true rfl trivial
  | cons a k ih =>
      obtain ⟨a, g⟩ := a
      cases a with
      | one p =>
          cases text with
          | nil => simp [matchHere, Starts]
          | cons c text =>
              rw [matchHere, Starts]
              constructor
              · intro h
                split at h
                · next hc => exact ⟨c, text, rfl, hc, (ih _ _).mp (by simpa using h)⟩
                · exact absurd h nofun
              · rintro ⟨c', rest, heq, hc, hk⟩
                obtain ⟨rfl, rfl⟩ := List.cons.inj heq
                rw [if_pos hc, Option.isSome_map]
                exact (ih _ _).mpr hk
      | many p =>
          rw [matchHere, Starts, Option.isSome_map]
          constructor
          · intro h
            obtain ⟨⟨word, r⟩, hr⟩ := Option.isSome_iff_exists.mp h
            obtain ⟨rest, rfl, hword, hk⟩ := matchMany_sound hr
            exact ⟨word, rest, rfl, hword, (ih _ _).mp (Option.isSome_iff_exists.mpr ⟨r, hk⟩)⟩
          · rintro ⟨word, rest, rfl, hword, hk⟩
            exact matchMany_complete hword ((ih _ _).mpr hk)
      | bol =>
          rw [Starts, ← ih]
          exact anchor_isSome_iff _
      | eol =>
          rw [Starts, ← ih]
          exact anchor_isSome_iff _

theorem search_isSome_iff (pattern : Pattern) (prev : Option Char) (text : Text) :
    (search pattern prev text).isSome ↔
      ∃ front back, text = front ++ back ∧ Starts pattern (lastChar prev front) back := by
  induction text generalizing prev with
  | nil =>
      rw [search, Option.isSome_map, matchHere_isSome_iff]
      constructor
      · intro h
        exact ⟨[], [], rfl, h⟩
      · rintro ⟨front, back, heq, h⟩
        obtain ⟨rfl, rfl⟩ := List.append_eq_nil_iff.mp heq.symm
        exact h
  | cons c text ih =>
      rw [search]
      have hhere := matchHere_isSome_iff pattern prev (c :: text)
      cases hmatch : matchHere pattern prev (c :: text) with
      | some r =>
          rw [hmatch] at hhere
          exact iff_of_true rfl ⟨[], c :: text, rfl, hhere.mp rfl⟩
      | none =>
          rw [hmatch] at hhere
          simp only [Option.isSome_map, ih]
          constructor
          · rintro ⟨front, back, rfl, h⟩
            exact ⟨c :: front, back, rfl, h⟩
          · rintro ⟨front, back, heq, h⟩
            cases front with
            | nil =>
                obtain rfl : c :: text = back := heq
                exact absurd (hhere.mpr h) nofun
            | cons d front =>
                obtain ⟨rfl, rfl⟩ := List.cons.inj heq
                exact ⟨front, back, rfl, h⟩

theorem search_here {pattern : Pattern} {prev : Option Char} {text before rest : Text}
    {parts : List Text} {r : List Text × Text} (hr : matchHere pattern prev text = some r)
    (h : ([], r) = (before, parts, rest)) :
    text = before ++ (parts.flatten ++ rest) ∧
      matchHere pattern (lastChar prev before) (parts.flatten ++ rest) = some (parts, rest) := by
  obtain ⟨rfl, rfl⟩ := Prod.mk.inj h
  obtain ⟨-, htext⟩ := matchHere_sound hr
  exact ⟨htext, htext ▸ hr⟩

theorem search_sound {pattern : Pattern} {prev : Option Char} {text before rest : Text}
    {parts : List Text} (h : search pattern prev text = some (before, parts, rest)) :
    text = before ++ (parts.flatten ++ rest) ∧
      matchHere pattern (lastChar prev before) (parts.flatten ++ rest) = some (parts, rest) := by
  induction text generalizing prev before with
  | nil =>
      obtain ⟨r, hr, heq⟩ := Option.map_eq_some_iff.mp h
      exact search_here hr heq
  | cons c text ih =>
      rw [search] at h
      split at h
      · next r hr => exact search_here hr (Option.some.inj h)
      · obtain ⟨⟨before, r⟩, hr, heq⟩ := Option.map_eq_some_iff.mp h
        obtain ⟨rfl, rfl⟩ := Prod.mk.inj heq
        obtain ⟨rfl, hmatch⟩ := ih hr
        exact ⟨rfl, hmatch⟩

theorem firstMatch_isSome_iff (pattern : Pattern) (text : Text) :
    (firstMatch pattern text).isSome ↔
      ∃ front back, text = front ++ back ∧ Starts pattern (lastChar none front) back := by
  rw [firstMatch, Option.isSome_map, search_isSome_iff]

section Starts

variable {k : Pattern} {prev : Option Char} {text : Text}

@[simp]
theorem starts_lit_iff (word : Text) (g : Nat) :
    Starts (lit word g ++ k) prev text ↔
      ∃ rest, text = word ++ rest ∧ Starts k (lastChar prev word) rest := by
  induction word generalizing prev text with
  | nil =>
      constructor
      · intro h
        exact ⟨text, rfl, h⟩
      · rintro ⟨rest, rfl, h⟩
        exact h
  | cons c word ih =>
      rw [lit, List.map_cons, List.cons_append, Starts]
      constructor
      · rintro ⟨d, rest, rfl, hd, h⟩
        obtain rfl := beq_iff_eq.mp hd
        obtain ⟨rest, rfl, hk⟩ := ih.mp h
        exact ⟨rest, rfl, hk⟩
      · rintro ⟨rest, rfl, h⟩
        exact ⟨c, word ++ rest, rfl, beq_self_eq_true c, ih.mpr ⟨rest, rfl, h⟩⟩

@[simp]
theorem starts_star_iff (p : Char → Bool) (g : Nat) :
    Starts (star p g ++ k) prev text ↔
      ∃ word rest, text = word ++ rest ∧ (∀ c ∈ word, p c) ∧ Starts k (lastChar prev word) rest :=
  Iff.rfl

@[simp]
theorem starts_plus_iff (p : Char → Bool) (g : Nat) :
    Starts (plus p g ++ k) prev text ↔
      ∃ word rest, text = word ++ rest ∧ word ≠ [] ∧ (∀ c ∈ word, p c) ∧
        Starts k (lastChar prev word) rest := by
  constructor
  · rintro ⟨c, -, rfl, hc, word, rest, rfl, hword, h⟩
    refine ⟨c :: word, rest, rfl, List.cons_ne_nil _ _, ?_, h⟩
    exact List.forall_mem_cons.mpr ⟨hc, hword⟩
  · rintro ⟨word, rest, rfl, hne, hword, h⟩
    obtain ⟨c, word, rfl⟩ := List.exists_cons_of_ne_nil hne
    rw [List.forall_mem_cons] at hword
    exact ⟨c, word ++ rest, rfl, hword.1, word, rest, rfl, hword.2, h⟩

theorem starts_litFold {word : Text} (g : Nat) (h : Starts k (lastChar prev word) text) :
    Starts (litFold word g ++ k) prev (word ++ text) := by
  induction word generalizing prev with
  | nil => exact h
  | cons c word ih =>
      refine ⟨c, word ++ text, rfl, ?_, ih h⟩
      rw [sameLetter, beq_self_eq_true, Bool.true_or, Bool.true_or]

end Starts

@[simp]
theorem starts_word_iff {prev : Option Char} {text : Text} (word : Text) (g : Nat) :
    Starts (lit word g) prev text ↔ ∃ rest, text = word ++ rest := by
  rw [← List.append_nil (lit word g), starts_lit_iff]
  simp only [Starts, and_true]

@[simp]
theorem search_lit_isSome_iff (word : Text) (g : Nat) (text : Text) :
    (search (lit word g) none text).isSome ↔ strstr text word := by
  rw [search_isSome_iff, strstr, decide_eq_true_iff]
  constructor
  · rintro ⟨front, back, rfl, h⟩
    obtain ⟨rest, rfl⟩ := (starts_word_iff word g).mp h
    exact ⟨front, rest, List.append_assoc _ _ _⟩
  · rintro ⟨front, rest, rfl⟩
    refine ⟨front, word ++ rest, List.append_assoc _ _ _, ?_⟩
    exact (starts_word_iff word g).mpr ⟨rest, rfl⟩

/-- Of a repetition in front of a word, its last character is enough. -/
theorem search_plus_lit_isSome_iff (p : Char → Bool) (word : Text) (g g' : Nat) (text : Text) :
    (search (plus p g ++ lit word g') none text).isSome ↔
      ∃ c, p c ∧ strstr text (c :: word) := by
  rw [search_isSome_iff]
  simp only [strstr, decide_eq_true_iff]
  constructor
  · rintro ⟨front, back, rfl, h⟩
    obtain ⟨chars, rest, rfl, hne, hchars, h⟩ := (starts_plus_iff p g).mp h
    obtain ⟨rest, rfl⟩ := (starts_word_iff word g').mp h
    obtain ⟨init, c, rfl⟩ := List.eq_nil_or_concat chars |>.resolve_left hne
    refine ⟨c, hchars c (by simp), front ++ init, rest, ?_⟩
    simp
  · rintro ⟨c, hc, front, rest, rfl⟩
    refine ⟨front, c :: (word ++ rest), by simp, (starts_plus_iff p g).mpr ?_⟩
    refine ⟨[c], word ++ rest, rfl, List.cons_ne_nil _ _, by simpa using hc, ?_⟩
    exact (starts_word_iff word g').mpr ⟨rest, rfl⟩

section Lines

/-- A new line starts behind the text. -/
def EndsLine (front : Text) : Prop := front = [] ∨ ∃ before, front = before ++ ['\n']

theorem atBol_lastChar_iff {front back : Text} (hback : back ≠ []) :
    atBol (lastChar none front) back ↔ EndsLine front := by
  rcases List.eq_nil_or_concat front with rfl | ⟨before, c, rfl⟩
  · exact iff_of_true rfl (.inl rfl)
  · rw [List.concat_eq_append, lastChar_concat, atBol, EndsLine]
    simp [hback]

theorem exists_last_line (text : Text) :
    ∃ before line, text = before ++ line ∧ EndsLine before ∧ ∀ c ∈ line, inLine c := by
  induction text using List.reverseRecOn with
  | nil => exact ⟨[], [], rfl, .inl rfl, by simp⟩
  | append_singleton text c ih =>
      cases hc : inLine c with
      | false =>
          obtain rfl : c = '\n' := by simpa [inLine] using hc
          exact ⟨text ++ ['\n'], [], (List.append_nil _).symm, .inr ⟨text, rfl⟩, by simp⟩
      | true =>
          obtain ⟨before, line, rfl, hbefore, hline⟩ := ih
          refine ⟨before, line ++ [c], List.append_assoc _ _ _, hbefore, ?_⟩
          rw [List.forall_mem_append]
          exact ⟨hline, by simpa using hc⟩

/-- Some line of the text begins with the word. -/
def LineBegins (text word : Text) : Prop :=
  ∃ front back, text = front ++ (word ++ back) ∧ EndsLine front

theorem search_bol_lit_isSome_iff {word : Text} (hword : word ≠ []) (g : Nat) (text : Text) :
    (search (bol ++ lit word g) none text).isSome ↔ LineBegins text word := by
  rw [search_isSome_iff, LineBegins]
  constructor
  · rintro ⟨front, back, rfl, hbol, h⟩
    obtain ⟨rest, rfl⟩ := (starts_word_iff word g).mp h
    exact ⟨front, rest, rfl, (atBol_lastChar_iff (by simp [hword])).mp hbol⟩
  · rintro ⟨front, rest, rfl, hfront⟩
    refine ⟨front, word ++ rest, rfl, (atBol_lastChar_iff (by simp [hword])).mpr hfront, ?_⟩
    exact (starts_word_iff word g).mpr ⟨rest, rfl⟩

end Lines

section Results

theorem search_of_matchHere {pattern : Pattern} {prev : Option Char} {text : Text}
    {r : List Text × Text} (h : matchHere pattern prev text = some r) :
    search pattern prev text = some ([], r) := by
  cases text with
  | nil => rw [search, h]; rfl
  | cons c text => rw [search, h]

@[simp]
theorem matchHere_lit (word : Text) (g : Nat) (k : Pattern) (prev : Option Char) (text : Text) :
    matchHere (lit word g ++ k) prev (word ++ text) =
      (matchHere k (lastChar prev word) text).map fun r =>
        (word.map (fun c => [c]) ++ r.1, r.2) := by
  induction word generalizing prev with
  | nil =>
      rw [lastChar]
      cases h : matchHere k prev text <;> simp [lit, h]
  | cons c word ih =>
      rw [lit, List.map_cons, List.cons_append, List.cons_append, matchHere,
        if_pos (beq_self_eq_true c), ← lit, ih, Option.map_map, lastChar]
      rfl

theorem matchHere_plus_all {p : Char → Bool} {c : Char} {text : Text} (g : Nat)
    (prev : Option Char) (hc : p c) (htext : ∀ c ∈ text, p c) :
    matchHere (plus p g) prev (c :: text) = some ([[c], text], []) := by
  rw [plus, cls, LinearPatterns.star, List.singleton_append, matchHere, if_pos hc, matchHere,
    matchMany_all htext]
  rfl

theorem capture_append {front : Pattern} {parts : List Text} (h : front.length = parts.length)
    (back : Pattern) (parts' : List Text) (g : Nat) :
    capture (front ++ back) (parts ++ parts') g =
      capture front parts g ++ capture back parts' g := by
  rw [capture, List.zip_append h, List.filter_append, List.flatMap_append]
  rfl

@[simp]
theorem capture_lit (word : Text) {g g' : Nat} (hne : g ≠ g') (parts : List Text) :
    capture (lit word g) parts g' = [] := by
  rw [capture, List.flatMap_eq_nil_iff]
  intro r hr
  obtain ⟨hr, hg⟩ := List.mem_filter.mp hr
  obtain ⟨c, -, hc⟩ := List.mem_map.mp (List.of_mem_zip hr).1
  rw [← hc] at hg
  exact absurd (of_decide_eq_true hg) hne

end Results

end DaapLog.PatternMatches

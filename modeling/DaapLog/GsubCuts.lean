import DaapLog.GreedyMatches

/-!
Replacing in a text piece by piece: where no match crosses a cut, both sides are replaced
in on their own.
-/

namespace DaapLog.GsubCuts

open DaapLog.CStrings
open DaapLog.LinearPatterns
open DaapLog.PatternMatches
open DaapLog.GreedyMatches
open DaapLog.GsubWeights

/-- Some character is read by every match. -/
def Consumes (pattern : Pattern) : Prop := ∃ p g, (Atom.one p, g) ∈ pattern

/-- `gsub` for a text behind the character `prev`. -/
def gsubAt (pattern : Pattern) (replace : List Text → Text) (prev : Option Char) (text : Text) :
    Text :=
  gsubFrom pattern replace (text.length + 1) prev text

section Steps

variable {pattern : Pattern} {replace : List Text → Text} {prev : Option Char}
  {text before rest : Text} {parts : List Text}

theorem gsub_eq_gsubAt (text : Text) :
    gsub pattern replace text = gsubAt pattern replace none text := rfl

theorem Consumes.flatten_ne_nil (hpattern : Consumes pattern)
    (h : matchHere pattern prev text = some (parts, rest)) : parts.flatten ≠ [] := by
  obtain ⟨p, g, hone⟩ := hpattern
  exact GsubWeights.flatten_ne_nil (matchHere_sound h).1 hone

theorem Consumes.matchHere_nil (hpattern : Consumes pattern) (prev : Option Char) :
    matchHere pattern prev [] = none := by
  cases h : matchHere pattern prev [] with
  | none => rfl
  | some r =>
      have htext := (matchHere_sound h).2
      exact absurd (List.append_eq_nil_iff.mp htext.symm).1 (hpattern.flatten_ne_nil h)

theorem getLast?_of_lastChar {word : Text} (hne : word ≠ []) (prev : Option Char) :
    word.getLast? = lastChar prev word := by
  obtain ⟨init, c, rfl⟩ := List.eq_nil_or_concat word |>.resolve_left hne
  rw [List.concat_eq_append, lastChar_concat, List.getLast?_concat]

theorem gsubFrom_some (hpattern : Consumes pattern)
    (h : search pattern prev text = some (before, parts, rest)) (fuel : Nat) :
    gsubFrom pattern replace (fuel + 1) prev text = before ++ replace parts ++
      gsubFrom pattern replace fuel (lastChar prev (before ++ parts.flatten)) rest := by
  obtain ⟨rfl, hmatch⟩ := search_sound h
  have hne := hpattern.flatten_ne_nil hmatch
  have hlast := getLast?_of_lastChar hne (lastChar prev before)
  rw [gsubFrom, h, lastChar_append, ← hlast]
  cases hc : parts.flatten.getLast? with
  | some c => simp only [hc]
  | none => exact absurd (List.getLast?_eq_none_iff.mp hc) hne

theorem gsubFrom_eq_gsubAt (hpattern : Consumes pattern) {fuel : Nat}
    (hfuel : text.length < fuel) :
    gsubFrom pattern replace fuel prev text = gsubAt pattern replace prev text := by
  have hsame {fuel fuel' : Nat} {prev : Option Char} {text : Text} (hfuel : text.length < fuel)
      (hfuel' : text.length < fuel') :
      gsubFrom pattern replace fuel prev text = gsubFrom pattern replace fuel' prev text := by
    induction fuel generalizing fuel' prev text with
    | zero => exact absurd hfuel (Nat.not_lt_zero _)
    | succ fuel ih =>
        obtain ⟨fuel', rfl⟩ := Nat.exists_eq_add_one_of_ne_zero (Nat.ne_zero_of_lt hfuel')
        cases hsearch : search pattern prev text with
        | none => rw [gsubFrom, gsubFrom, hsearch]
        | some r =>
            obtain ⟨before, parts, rest⟩ := r
            obtain ⟨htext, hmatch⟩ := search_sound hsearch
            have hlength := congrArg List.length htext
            have hpos := List.length_pos_of_ne_nil (hpattern.flatten_ne_nil hmatch)
            simp only [List.length_append] at hlength
            rw [gsubFrom_some hpattern hsearch, gsubFrom_some hpattern hsearch]
            have hrest : gsubFrom pattern replace fuel _ rest =
                gsubFrom pattern replace fuel' (lastChar prev (before ++ parts.flatten)) rest :=
              ih (by omega) (by omega)
            rw [hrest]
  exact hsame hfuel (Nat.lt_succ_self _)

theorem gsubAt_none (h : search pattern prev text = none) :
    gsubAt pattern replace prev text = text := by
  rw [gsubAt, gsubFrom, h]

theorem gsubAt_some (hpattern : Consumes pattern)
    (h : search pattern prev text = some (before, parts, rest)) :
    gsubAt pattern replace prev text = before ++ replace parts ++
      gsubAt pattern replace (lastChar prev (before ++ parts.flatten)) rest := by
  obtain ⟨htext, hmatch⟩ := search_sound h
  have hlength := congrArg List.length htext
  have hpos := List.length_pos_of_ne_nil (hpattern.flatten_ne_nil hmatch)
  simp only [List.length_append] at hlength
  have hfuel : rest.length < text.length := by omega
  rw [gsubAt, gsubFrom_some hpattern h, gsubFrom_eq_gsubAt hpattern hfuel]

theorem gsubAt_cons (hpattern : Consumes pattern) {c : Char}
    (h : matchHere pattern prev (c :: text) = none) :
    gsubAt pattern replace prev (c :: text) = c :: gsubAt pattern replace (some c) text := by
  have hsearch : search pattern prev (c :: text) =
      (search pattern (some c) text).map fun r => (c :: r.1, r.2) := by
    rw [search, h]
  cases htext : search pattern (some c) text with
  | none =>
      rw [htext] at hsearch
      rw [gsubAt_none hsearch, gsubAt_none htext]
  | some r =>
      obtain ⟨before, parts, rest⟩ := r
      rw [htext] at hsearch
      rw [gsubAt_some hpattern hsearch, gsubAt_some hpattern htext]
      rfl

end Steps

section Cuts

variable {pattern : Pattern} {replace : List Text → Text}

/-- No match from the front reaches or looks behind the cut. -/
def Local (pattern : Pattern) (prev : Option Char) (front back : Text) : Prop :=
  ∀ before rest, front = before ++ rest → rest ≠ [] →
    matchHere pattern (lastChar prev before) (rest ++ back) =
      (matchHere pattern (lastChar prev before) rest).map fun r => (r.1, r.2 ++ back)

theorem Local.drop {prev : Option Char} {before front back : Text}
    (h : Local pattern prev (before ++ front) back) :
    Local pattern (lastChar prev before) front back := by
  intro before' rest heq hne
  have hcut := h (before ++ before') rest (by rw [heq, List.append_assoc]) hne
  rwa [lastChar_append] at hcut

theorem search_append_of_local (hpattern : Consumes pattern) {front back : Text}
    {prev : Option Char} (h : Local pattern prev front back) :
    search pattern prev (front ++ back) =
      match search pattern prev front with
      | some r => some (r.1, r.2.1, r.2.2 ++ back)
      | none => (search pattern (lastChar prev front) back).map fun r => (front ++ r.1, r.2) := by
  induction front generalizing prev with
  | nil =>
      rw [search, hpattern.matchHere_nil, lastChar, List.nil_append]
      cases search pattern prev back with
      | none => rfl
      | some r => rfl
  | cons c front ih =>
      have hhere := h [] (c :: front) rfl (List.cons_ne_nil _ _)
      rw [lastChar] at hhere
      rw [search, List.cons_append, search, ← List.cons_append, hhere]
      cases hmatch : matchHere pattern prev (c :: front) with
      | some r => rfl
      | none =>
          have htail : Local pattern (lastChar prev [c]) front back := Local.drop h
          rw [lastChar, lastChar] at htail
          rw [Option.map_none]
          simp only [ih htail]
          cases search pattern (some c) front with
          | some r => rfl
          | none =>
              rw [Option.map_none, Option.map_map, lastChar]
              rfl

theorem gsubAt_append (hpattern : Consumes pattern) {front back : Text} {prev : Option Char}
    (h : Local pattern prev front back) :
    gsubAt pattern replace prev (front ++ back) =
      gsubAt pattern replace prev front ++ gsubAt pattern replace (lastChar prev front) back := by
  have hsearch := search_append_of_local hpattern h
  cases hfront : search pattern prev front with
  | none =>
      rw [hfront] at hsearch
      rw [gsubAt_none hfront]
      cases hback : search pattern (lastChar prev front) back with
      | none =>
          rw [hback] at hsearch
          rw [gsubAt_none hsearch]
          exact congrArg (front ++ ·) (gsubAt_none hback).symm
      | some r =>
          obtain ⟨before, parts, rest⟩ := r
          rw [hback] at hsearch
          rw [gsubAt_some hpattern hsearch, gsubAt_some hpattern hback]
          simp only [List.append_assoc, lastChar_append]
  | some r =>
      obtain ⟨before, parts, rest⟩ := r
      rw [hfront] at hsearch
      obtain ⟨htext, hmatch⟩ := search_sound hfront
      have hpos := List.length_pos_of_ne_nil (hpattern.flatten_ne_nil hmatch)
      have hrest : Local pattern (lastChar prev (before ++ parts.flatten)) rest back := by
        refine Local.drop ?_
        rwa [List.append_assoc, ← htext]
      rw [gsubAt_some hpattern hsearch, gsubAt_some hpattern hfront,
        gsubAt_append hpattern hrest, htext]
      simp only [List.append_assoc, lastChar_append]
termination_by front.length
decreasing_by
  rw [htext]
  simp only [List.length_append]
  omega

/-- A character that no atom accepts, and no anchor. -/
def Rejects (pattern : Pattern) (c : Char) : Prop :=
  ∀ a ∈ pattern, match a.1 with
    | .one p => p c = false
    | .many p => p c = false
    | .bol => False
    | .eol => False

theorem matchMany_append {p : Char → Bool} {c : Char} (hc : p c = false)
    {k : Option Char → Text → Option (List Text × Text)} {back : Text}
    (hk : ∀ prev text, k prev (text ++ c :: back) =
      (k prev text).map fun r => (r.1, r.2 ++ c :: back)) (prev : Option Char) (text : Text) :
    matchMany p k prev (text ++ c :: back) =
      (matchMany p k prev text).map fun r => (r.1, r.2.1, r.2.2 ++ c :: back) := by
  have hstop (prev : Option Char) (text : Text) :
      (k prev (text ++ c :: back)).map (([], ·) : List Text × Text → Text × List Text × Text) =
        ((k prev text).map ([], ·)).map fun r => (r.1, r.2.1, r.2.2 ++ c :: back) := by
    rw [hk, Option.map_map, Option.map_map]
    rfl
  induction text generalizing prev with
  | nil =>
      have hstart : matchMany p k prev (c :: back) = (k prev (c :: back)).map ([], ·) := by
        rw [matchMany, hc]
        rfl
      rw [List.nil_append, hstart]
      exact hstop prev []
  | cons d text ih =>
      rw [List.cons_append, matchMany, matchMany]
      split
      · rw [ih]
        cases matchMany p k (some d) text with
        | some r => rfl
        | none => exact hstop prev (d :: text)
      · exact hstop prev (d :: text)

theorem matchHere_append_of_rejects {c : Char} (h : Rejects pattern c) (prev : Option Char)
    (text back : Text) :
    matchHere pattern prev (text ++ c :: back) =
      (matchHere pattern prev text).map fun r => (r.1, r.2 ++ c :: back) := by
  induction pattern generalizing prev text with
  | nil => rfl
  | cons a k ih =>
      rw [Rejects, List.forall_mem_cons] at h
      obtain ⟨a, g⟩ := a
      cases a with
      | one p =>
          cases text with
          | nil =>
              have hc : p c = false := h.1
              have hstart : matchHere ((.one p, g) :: k) prev (c :: back) = none := by
                rw [matchHere, hc]
                rfl
              rw [List.nil_append, hstart]
              rfl
          | cons d text =>
              rw [List.cons_append, matchHere, matchHere, ih h.2]
              split
              · rw [Option.map_map, Option.map_map]
                rfl
              · rfl
      | many p =>
          rw [matchHere, matchHere, matchMany_append h.1 (ih h.2), Option.map_map, Option.map_map]
          rfl
      | bol => exact h.1.elim
      | eol => exact h.1.elim

theorem local_of_rejects {c : Char} (h : Rejects pattern c) (prev : Option Char)
    (front back : Text) : Local pattern prev front (c :: back) :=
  fun before rest _ _ => matchHere_append_of_rejects h (lastChar prev before) rest back

theorem rejects_lit {word : Text} {c : Char} (hc : c ∉ word) (g : Nat) :
    Rejects (lit word g) c := by
  intro a ha
  obtain ⟨d, hd, rfl⟩ := List.mem_map.mp ha
  show (c == d) = false
  rw [beq_eq_false_iff_ne]
  rintro rfl
  exact hc hd

@[simp]
theorem consumes_lit {word : Text} (hword : word ≠ []) (g : Nat) : Consumes (lit word g) := by
  obtain ⟨c, rest, rfl⟩ := List.exists_cons_of_ne_nil hword
  exact ⟨_, g, List.mem_cons_self⟩

theorem remove_lit_append {word : Text} (hword : word ≠ []) {c : Char} (hc : c ∉ word)
    (front back : Text) :
    remove (lit word 0) (front ++ c :: back) =
      remove (lit word 0) front ++
        gsubAt (lit word 0) (fun _ => []) (lastChar none front) (c :: back) :=
  gsubAt_append (consumes_lit hword 0) (local_of_rejects (rejects_lit hc 0) none front back)

end Cuts

section Missing

variable {pattern : Pattern} {replace : List Text → Text} {p : Char → Bool} {g : Nat}

theorem search_none_of_missing (hone : (.one p, g) ∈ pattern) {text : Text}
    (htext : ∀ c ∈ text, p c = false) (prev : Option Char) : search pattern prev text = none := by
  cases h : search pattern prev text with
  | none => rfl
  | some r =>
      obtain ⟨before, parts, rest⟩ := r
      obtain ⟨rfl, hmatch⟩ := search_sound h
      obtain ⟨c, hc, hp⟩ := GsubWeights.exists_mem_flatten (matchHere_sound hmatch).1 hone
      have hnot := htext c (List.mem_append_right _ (List.mem_append_left _ hc))
      exact absurd (hp.symm.trans hnot) Bool.noConfusion

theorem gsubAt_of_missing (hone : (.one p, g) ∈ pattern) {text : Text}
    (htext : ∀ c ∈ text, p c = false) (prev : Option Char) :
    gsubAt pattern replace prev text = text :=
  gsubAt_none (search_none_of_missing hone htext prev)

theorem mem_lit {word : Text} {c : Char} (hc : c ∈ word) (g : Nat) :
    (Atom.one (· == c), g) ∈ lit word g := List.mem_map_of_mem hc

theorem forall_beq_false {text : Text} {c : Char} (hc : c ∉ text) :
    ∀ d ∈ text, (d == c) = false := by
  intro d hd
  rw [beq_eq_false_iff_ne]
  rintro rfl
  exact hc hd

theorem forall_gsubFrom {P : Char → Prop}
    (hreplace : ∀ parts : List Text, (∀ c ∈ parts.flatten, P c) → ∀ c ∈ replace parts, P c)
    (fuel : Nat) (prev : Option Char) {text : Text} (htext : ∀ c ∈ text, P c) :
    ∀ c ∈ gsubFrom pattern replace fuel prev text, P c := by
  induction fuel generalizing prev text with
  | zero => exact htext
  | succ fuel ih =>
      rw [gsubFrom]
      cases h : search pattern prev text with
      | none => exact htext
      | some r =>
          obtain ⟨before, parts, rest⟩ := r
          obtain ⟨rfl, -⟩ := search_sound h
          simp only [List.forall_mem_append] at htext
          obtain ⟨hbefore, hparts, hrest⟩ := htext
          have hnew := hreplace parts hparts
          cases hlast : parts.flatten.getLast? with
          | some c =>
              simp only [hlast, List.forall_mem_append]
              exact ⟨⟨hbefore, hnew⟩, ih (some c) hrest⟩
          | none =>
              cases rest with
              | nil =>
                  simp only [hlast, List.forall_mem_append]
                  exact ⟨hbefore, hnew⟩
              | cons c rest =>
                  rw [List.forall_mem_cons] at hrest
                  simp only [hlast, List.forall_mem_append, List.forall_mem_cons]
                  exact ⟨⟨hbefore, hnew⟩, hrest.1, ih (some c) hrest.2⟩

theorem forall_gsub {P : Char → Prop}
    (hreplace : ∀ parts : List Text, (∀ c ∈ parts.flatten, P c) → ∀ c ∈ replace parts, P c)
    {text : Text} (htext : ∀ c ∈ text, P c) : ∀ c ∈ gsub pattern replace text, P c :=
  forall_gsubFrom hreplace _ none htext

theorem forall_remove {P : Char → Prop} {text : Text} (htext : ∀ c ∈ text, P c) :
    ∀ c ∈ remove pattern text, P c :=
  forall_gsub (fun _ _ _ hc => absurd hc List.not_mem_nil) htext

theorem capture_subset (pattern : Pattern) (parts : List Text) (g : Nat) :
    capture pattern parts g ⊆ parts.flatten := by
  induction pattern generalizing parts with
  | nil => exact List.nil_subset _
  | cons a k ih =>
      cases parts with
      | nil => exact List.nil_subset _
      | cons part parts =>
          rw [capture_cons, List.flatten_cons]
          split
          · exact List.append_subset.mpr ⟨List.subset_append_left _ _,
              List.subset_append_of_subset_right _ (ih parts)⟩
          · exact List.subset_append_of_subset_right _ (ih parts)

end Missing

section Characters

@[simp]
theorem matchHere_char (c d : Char) (g : Nat) (prev : Option Char) (rest : Text) :
    matchHere (lit [c] g) prev (d :: rest) = if d = c then some ([[d]], rest) else none := by
  rw [lit, List.map_singleton, matchHere]
  by_cases hd : d = c
  · rw [if_pos (beq_iff_eq.mpr hd), if_pos hd]
    rfl
  · rw [if_neg (by simpa using hd), if_neg hd]

theorem gsubAt_remove_char (c : Char) (g : Nat) (prev : Option Char) (text : Text) :
    gsubAt (lit [c] g) (fun _ => []) prev text = text.filter (· ≠ c) := by
  have hconsumes : Consumes (lit [c] g) := consumes_lit (List.cons_ne_nil c []) g
  induction text generalizing prev with
  | nil => exact gsubAt_of_missing (mem_lit List.mem_cons_self g) (by simp) prev
  | cons d text ih =>
      have hhere := matchHere_char c d g prev text
      by_cases hd : d = c
      · rw [if_pos hd] at hhere
        rw [gsubAt_some hconsumes (search_of_matchHere hhere), ih,
          List.filter_cons_of_neg (by simpa using hd)]
        rfl
      · rw [if_neg hd] at hhere
        rw [gsubAt_cons hconsumes hhere, ih, List.filter_cons_of_pos (by simpa using hd)]

@[simp]
theorem remove_char (c : Char) (text : Text) :
    remove (lit [c] 0) text = text.filter (· ≠ c) := gsubAt_remove_char c 0 none text

end Characters

section Words

variable {word : Text} {c d : Char}

theorem matchHere_lit_none (hword : ∀ c' ∈ word.head?, c ≠ c') (hne : word ≠ []) (g : Nat)
    (prev : Option Char) (text : Text) : matchHere (lit word g) prev (c :: text) = none := by
  obtain ⟨w, word, rfl⟩ := List.exists_cons_of_ne_nil hne
  have hc : c ≠ w := hword w rfl
  rw [lit, List.map_cons, matchHere, if_neg (by simpa using hc)]

@[simp]
theorem matchHere_lit_isSome_iff (word : Text) (g : Nat) (prev : Option Char) (text : Text) :
    (matchHere (lit word g) prev text).isSome ↔ word <+: text := by
  rw [matchHere_isSome_iff, starts_word_iff]
  constructor
  · rintro ⟨rest, rfl⟩
    exact List.prefix_append word rest
  · rintro ⟨rest, rfl⟩
    exact ⟨rest, rfl⟩

@[simp]
theorem matchHere_word (word : Text) (g : Nat) (prev : Option Char) (rest : Text) :
    matchHere (lit word g) prev (word ++ rest) = some (word.map (fun c => [c]), rest) := by
  have h := matchHere_lit word g [] prev rest
  rw [List.append_nil, matchHere, Option.map_some, List.append_nil] at h
  exact h

/-- A word at the start of the first line does not reach a cut in it unless it is longer
than what stands there. -/
theorem local_bol_lit {front back : Text} (hfront : '\n' ∉ front)
    (hcut : ∀ more, word ≠ front ++ c :: more) :
    Local (bol ++ lit word 0) none front (c :: back) := by
  intro before rest heq hne
  rcases List.eq_nil_or_concat before with rfl | ⟨init, b, rfl⟩
  · obtain rfl : front = rest := heq
    have hstart (text : Text) : matchHere (bol ++ lit word 0) none text =
        (matchHere (lit word 0) none text).map fun r => ([] :: r.1, r.2) := by
      have hbol : atBol none text = true := rfl
      rw [bol, List.singleton_append, matchHere, if_pos hbol]
    rw [lastChar, hstart, hstart]
    by_cases hprefix : word <+: front
    · obtain ⟨rest, rfl⟩ := hprefix
      rw [List.append_assoc, matchHere_word, matchHere_word]
      rfl
    · have hnone : matchHere (lit word 0) none front = none := by
        rw [← Option.not_isSome_iff_eq_none, matchHere_lit_isSome_iff]
        exact hprefix
      have hnone' : matchHere (lit word 0) none (front ++ c :: back) = none := by
        rw [← Option.not_isSome_iff_eq_none, matchHere_lit_isSome_iff]
        rintro ⟨tail, htail⟩
        rcases List.append_eq_append_iff.mp htail with ⟨m, rfl, -⟩ | ⟨m, hword, hm⟩
        · exact hprefix (List.prefix_append word m)
        · cases m with
          | nil => exact hprefix (by rw [hword, List.append_nil])
          | cons c' m =>
              obtain ⟨rfl, -⟩ := List.cons.inj hm
              exact hcut m hword
      rw [hnone, hnone']
      rfl
  · rw [List.concat_eq_append] at heq ⊢
    have hb : b ≠ '\n' := by
      rintro rfl
      exact hfront (heq ▸ by simp)
    have hnot (text : Text) : matchHere (bol ++ lit word 0) (some b) text = none := by
      have hbol : atBol (some b) text = false := by simp [atBol, hb]
      rw [bol, List.singleton_append, matchHere, if_neg (by simp [hbol])]
    rw [lastChar_concat, hnot, hnot]
    rfl

theorem matchMany_lit_append {p : Char → Bool} (hne : word ≠ []) (hc : c ∉ word)
    (hp : p d = false) (hd : ∀ c' ∈ word.head?, d ≠ c') (g : Nat) (prev : Option Char)
    (front back : Text) :
    matchMany p (matchHere (lit word g)) prev (front ++ c :: d :: back) =
      (matchMany p (matchHere (lit word g)) prev front).map
        fun r => (r.1, r.2.1, r.2.2 ++ c :: d :: back) := by
  have hstop (prev : Option Char) (text : Text) :
      (matchHere (lit word g) prev (text ++ c :: d :: back)).map
          (([], ·) : List Text × Text → Text × List Text × Text) =
        ((matchHere (lit word g) prev text).map ([], ·)).map
          fun r => (r.1, r.2.1, r.2.2 ++ c :: d :: back) := by
    rw [matchHere_append_of_rejects (rejects_lit hc g), Option.map_map, Option.map_map]
    rfl
  induction front generalizing prev with
  | nil =>
      have hinner : matchMany p (matchHere (lit word g)) (some c) (d :: back) = none := by
        rw [matchMany, hp, if_neg Bool.false_ne_true, matchHere_lit_none hd hne]
        rfl
      have hstart : matchMany p (matchHere (lit word g)) prev (c :: d :: back) =
          (matchHere (lit word g) prev (c :: d :: back)).map ([], ·) := by
        rw [matchMany, hinner]
        split
        · rfl
        · rfl
      rw [List.nil_append, hstart]
      exact hstop prev []
  | cons a front ih =>
      rw [List.cons_append, matchMany, matchMany]
      split
      · rw [ih]
        cases matchMany p (matchHere (lit word g)) (some a) front with
        | some r => rfl
        | none => exact hstop prev (a :: front)
      · exact hstop prev (a :: front)

/-- Repetitions in front of a word do not reach a cut if the word cannot stand there. -/
theorem local_plus_lit {p : Char → Bool} (hne : word ≠ []) (hc : c ∉ word) (hp : p d = false)
    (hd : ∀ c' ∈ word.head?, d ≠ c') (g g' : Nat) (prev : Option Char) (front back : Text) :
    Local (plus p g ++ lit word g') prev front (c :: d :: back) := by
  intro before rest _ hrest
  obtain ⟨a, rest, rfl⟩ := List.exists_cons_of_ne_nil hrest
  rw [plus, cls, LinearPatterns.star, List.append_assoc, List.singleton_append,
    List.singleton_append, List.cons_append, matchHere, matchHere]
  split
  · rw [matchHere, matchHere, matchMany_lit_append hne hc hp hd]
    simp only [Option.map_map]
    rfl
  · rfl

end Words

section Repetitions

variable {p : Char → Bool} {replace : List Text → Text} {prev : Option Char}

@[simp]
theorem consumes_plus (p : Char → Bool) (g : Nat) : Consumes (plus p g) :=
  ⟨p, g, List.mem_cons_self⟩

theorem gsubAt_plus_copy {front : Text} (hfront : ∀ c ∈ front, p c = false) (g : Nat)
    (text : Text) :
    gsubAt (plus p g) replace prev (front ++ text) =
      front ++ gsubAt (plus p g) replace (lastChar prev front) text := by
  induction front generalizing prev with
  | nil => rfl
  | cons c front ih =>
      rw [List.forall_mem_cons] at hfront
      have hnone : matchHere (plus p g) prev (c :: (front ++ text)) = none := by
        rw [plus, cls, List.singleton_append, matchHere, hfront.1, if_neg Bool.false_ne_true]
      rw [List.cons_append, gsubAt_cons (consumes_plus p g) hnone, ih hfront.2, lastChar]
      rfl

theorem gsubAt_plus_run {c : Char} {run rest : Text} (hrun : ∀ c' ∈ c :: run, p c')
    (hrest : ∀ c' ∈ rest.head?, ¬p c') (g : Nat) :
    gsubAt (plus p g) replace prev (c :: run ++ rest) =
      replace [[c], run] ++
        gsubAt (plus p g) replace (lastChar prev (c :: run)) rest := by
  have hmatch := @matchHere_plus [] prev rest rest [] p c run g hrun hrest rfl
  rw [List.append_nil] at hmatch
  have hflatten : [[c], run].flatten = c :: run := by simp
  rw [gsubAt_some (consumes_plus p g) (search_of_matchHere hmatch), hflatten]
  rfl

end Repetitions

section Anchors

variable {pattern : Pattern} {replace : List Text → Text} {prev prev' : Option Char}

/-- A pattern that does not ask for the start of a line. -/
def Unanchored (pattern : Pattern) : Prop := ∀ a ∈ pattern, a.1 ≠ .bol

theorem matchMany_prev {p : Char → Bool} {k : Option Char → Text → Option (List Text × Text)}
    (hk : ∀ prev prev' text, k prev text = k prev' text) (text : Text) :
    matchMany p k prev text = matchMany p k prev' text := by
  cases text with
  | nil => rw [matchMany, matchMany, hk prev prev']
  | cons c text => rw [matchMany, matchMany, hk prev prev']

theorem matchHere_prev (h : Unanchored pattern) (prev prev' : Option Char) (text : Text) :
    matchHere pattern prev text = matchHere pattern prev' text := by
  induction pattern generalizing prev prev' text with
  | nil => rfl
  | cons a k ih =>
      rw [Unanchored, List.forall_mem_cons] at h
      obtain ⟨a, g⟩ := a
      cases a with
      | one p =>
          cases text with
          | nil => rfl
          | cons c text => rfl
      | many p => rw [matchHere, matchHere, matchMany_prev (ih h.2) text]
      | bol => exact absurd rfl h.1
      | eol => rw [matchHere, matchHere, ih h.2 prev prev']

theorem search_prev (h : Unanchored pattern) (prev prev' : Option Char) (text : Text) :
    search pattern prev text = search pattern prev' text := by
  cases text with
  | nil => rw [search, search, matchHere_prev h prev prev']
  | cons c text => rw [search, search, matchHere_prev h prev prev']

theorem lastChar_of_ne_nil {word : Text} (hne : word ≠ []) (prev prev' : Option Char) :
    lastChar prev word = lastChar prev' word := by
  obtain ⟨c, word, rfl⟩ := List.exists_cons_of_ne_nil hne
  rfl

theorem gsubAt_prev (hpattern : Consumes pattern) (h : Unanchored pattern)
    (prev prev' : Option Char) (text : Text) :
    gsubAt pattern replace prev text = gsubAt pattern replace prev' text := by
  have hsame := search_prev h prev prev' text
  cases hsearch : search pattern prev text with
  | none => rw [gsubAt_none hsearch, gsubAt_none (hsame.symm.trans hsearch)]
  | some r =>
      obtain ⟨before, parts, rest⟩ := r
      have hne : before ++ parts.flatten ≠ [] :=
        List.append_ne_nil_of_right_ne_nil _
          (hpattern.flatten_ne_nil (search_sound hsearch).2)
      rw [gsubAt_some hpattern hsearch, gsubAt_some hpattern (hsame.symm.trans hsearch),
        lastChar_of_ne_nil hne prev prev']

@[simp]
theorem unanchored_lit (word : Text) (g : Nat) : Unanchored (lit word g) := by
  intro a ha
  obtain ⟨c, -, rfl⟩ := List.mem_map.mp ha
  exact Atom.noConfusion

/-- Replacing works piece by piece between characters that no match reads. -/
theorem gsub_append_cons (hpattern : Consumes pattern) (h : Unanchored pattern) {c : Char}
    (hc : Rejects pattern c) (front back : Text) :
    gsub pattern replace (front ++ c :: back) =
      gsub pattern replace front ++ c :: gsub pattern replace back := by
  have hnone : matchHere pattern (lastChar none front) (c :: back) = none := by
    have hnil := matchHere_append_of_rejects hc (lastChar none front) [] back
    rwa [hpattern.matchHere_nil] at hnil
  rw [gsub_eq_gsubAt, gsubAt_append hpattern (local_of_rejects hc none front back),
    gsubAt_cons hpattern hnone, gsubAt_prev hpattern h (some c) none]
  rfl

theorem remove_lit_append_cons {word : Text} (hword : word ≠ []) {c : Char} (hc : c ∉ word)
    (front back : Text) :
    remove (lit word 0) (front ++ c :: back) =
      remove (lit word 0) front ++ c :: remove (lit word 0) back :=
  gsub_append_cons (consumes_lit hword 0) (unanchored_lit word 0) (rejects_lit hc 0) front back

theorem gsubAt_copy (hpattern : Consumes pattern) {front back : Text}
    (h : ∀ before rest, front = before ++ rest → rest ≠ [] →
      matchHere pattern (lastChar prev before) (rest ++ back) = none) :
    gsubAt pattern replace prev (front ++ back) =
      front ++ gsubAt pattern replace (lastChar prev front) back := by
  induction front generalizing prev with
  | nil => rfl
  | cons c front ih =>
      have hhere := h [] (c :: front) rfl (List.cons_ne_nil _ _)
      rw [lastChar, List.cons_append] at hhere
      rw [List.cons_append, gsubAt_cons hpattern hhere, ih fun before rest heq hne => ?_, lastChar]
      · rfl
      · subst heq
        exact h (c :: before) rest rfl hne

end Anchors

section RepetitionsBeforeWords

variable {p : Char → Bool} {word : Text} {replace : List Text → Text} {prev : Option Char}

@[simp]
theorem consumes_plus_lit (p : Char → Bool) (word : Text) (g g' : Nat) :
    Consumes (plus p g ++ lit word g') :=
  ⟨p, g, List.mem_append_left _ List.mem_cons_self⟩

theorem mem_plus {g : Nat} {a : Atom × Nat} (ha : a ∈ plus p g) :
    a.1 = .one p ∨ a.1 = .many p := by
  rw [plus, cls, LinearPatterns.star, List.singleton_append, List.mem_cons,
    List.mem_singleton] at ha
  rcases ha with rfl | rfl
  · exact .inl rfl
  · exact .inr rfl

@[simp]
theorem unanchored_plus_lit (p : Char → Bool) (word : Text) (g g' : Nat) :
    Unanchored (plus p g ++ lit word g') := by
  intro a ha
  rcases List.mem_append.mp ha with ha | ha
  · rcases mem_plus ha with hone | hmany
    · rw [hone]
      exact Atom.noConfusion
    · rw [hmany]
      exact Atom.noConfusion
  · exact unanchored_lit word g' a ha

theorem matchHere_plus_lit_none (hword : ∀ c ∈ word, p c = false) {front back : Text}
    (hfront : ∀ c, p c → ¬c :: word <:+: front) (hlast : front.getLast?.any p = false)
    (hback : ∀ c ∈ back.head?, p c) (hne : front ≠ []) (g g' : Nat) :
    matchHere (plus p g ++ lit word g') prev (front ++ back) = none := by
  have hend {init : Text} {c : Char} (hinit : front = init ++ [c]) : ¬p c := by
    rw [hinit, List.getLast?_concat] at hlast
    simpa using hlast
  rw [← Option.not_isSome_iff_eq_none, matchHere_isSome_iff, starts_plus_iff]
  rintro ⟨run, rest, htext, hrun, hall, hstarts⟩
  obtain ⟨rest, rfl⟩ := (starts_word_iff word g').mp hstarts
  obtain ⟨init, c, rfl⟩ := List.eq_nil_or_concat run |>.resolve_left hrun
  rw [List.concat_eq_append] at htext hall
  have hc : p c := hall c (by simp)
  rcases List.append_eq_append_iff.mp htext with ⟨m, hlong, -⟩ | ⟨m, hshort, hrest⟩
  · obtain ⟨front', d, rfl⟩ := List.eq_nil_or_concat front |>.resolve_left hne
    rw [List.concat_eq_append] at hlong hend
    exact hend rfl (hall d (by rw [hlong]; simp))
  · rcases List.append_eq_append_iff.mp hrest with ⟨m', hm, -⟩ | ⟨m', hm, hm'⟩
    · exact hfront c hc ⟨init, m', by rw [hshort, hm]; simp⟩
    · cases m' with
      | nil =>
          rw [List.append_nil] at hm
          exact hfront c hc ⟨init, [], by rw [hshort, hm]; simp⟩
      | cons d m' =>
          have hd : p d := hback d (by rw [hm']; rfl)
          exact absurd (hd.symm.trans (hword d (by rw [hm]; simp))) Bool.noConfusion

/-- A text without the word behind a repetition is copied up to a repetition. -/
theorem gsubAt_plus_lit_copy (hword : ∀ c ∈ word, p c = false) {front back : Text}
    (hfront : ∀ c, p c → ¬c :: word <:+: front) (hlast : front.getLast?.any p = false)
    (hback : ∀ c ∈ back.head?, p c) (g g' : Nat) :
    gsubAt (plus p g ++ lit word g') replace prev (front ++ back) =
      front ++ gsubAt (plus p g ++ lit word g') replace (lastChar prev front) back := by
  refine gsubAt_copy (consumes_plus_lit p word g g') fun before rest heq hne => ?_
  refine matchHere_plus_lit_none hword (fun c hc hfound => ?_) ?_ hback hne g g'
  · exact hfront c hc (hfound.trans ⟨before, [], by rw [heq, List.append_nil]⟩)
  · rwa [heq, List.getLast?_append_of_ne_nil _ hne] at hlast

theorem rejects_plus_lit {c : Char} (hp : p c = false) (hc : c ∉ word) (g g' : Nat) :
    Rejects (plus p g ++ lit word g') c := by
  intro a ha
  rcases List.mem_append.mp ha with ha | ha
  · rcases mem_plus ha with hone | hmany
    · rw [hone]
      exact hp
    · rw [hmany]
      exact hp
  · exact rejects_lit hc g' a ha

theorem gsubAt_plus_lit_skip {front : Text} (hfront : ∀ c ∈ front, p c = false) (g g' : Nat)
    (back : Text) :
    gsubAt (plus p g ++ lit word g') replace prev (front ++ back) =
      front ++ gsubAt (plus p g ++ lit word g') replace (lastChar prev front) back := by
  refine gsubAt_copy (consumes_plus_lit p word g g') fun before rest heq hne => ?_
  obtain ⟨c, rest, rfl⟩ := List.exists_cons_of_ne_nil hne
  have hc : p c = false := hfront c (by rw [heq]; simp)
  rw [plus, cls, List.append_assoc, List.singleton_append, List.cons_append, matchHere, hc,
    if_neg Bool.false_ne_true]

theorem gsubAt_plus_lit_run (hword : ∀ c ∈ word, p c = false) {c : Char} {run : Text}
    (hrun : ∀ c' ∈ c :: run, p c') (hne : word ≠ []) (g g' : Nat) (rest : Text) :
    gsubAt (plus p g ++ lit word g') replace prev (c :: run ++ (word ++ rest)) =
      replace ([c] :: run :: word.map fun c' => [c']) ++
        gsubAt (plus p g ++ lit word g') replace none rest := by
  have hstop : ∀ c' ∈ (word ++ rest).head?, ¬p c' := by
    obtain ⟨w, word, rfl⟩ := List.exists_cons_of_ne_nil hne
    rintro c' hc'
    obtain rfl : w = c' := Option.some.inj hc'
    rw [hword w List.mem_cons_self]
    exact Bool.false_ne_true
  have hmatch : matchHere (plus p g ++ lit word g') prev (c :: run ++ (word ++ rest)) =
      some ([c] :: run :: word.map fun c' => [c'], rest) :=
    matchHere_plus g hrun hstop (matchHere_word word g' _ rest)
  rw [gsubAt_some (consumes_plus_lit p word g g') (search_of_matchHere hmatch), List.nil_append,
    gsubAt_prev (consumes_plus_lit p word g g') (unanchored_plus_lit p word g g') _ none]

theorem gsubAt_plus_lit_of_missing {text : Text} (h : ∀ c, p c → ¬c :: word <:+: text)
    (g g' : Nat) : gsubAt (plus p g ++ lit word g') replace prev text = text := by
  refine gsubAt_none ?_
  rw [search_prev (unanchored_plus_lit p word g g') prev none, ← Option.not_isSome_iff_eq_none,
    search_plus_lit_isSome_iff]
  rintro ⟨c, hc, hfound⟩
  exact h c hc (of_decide_eq_true hfound)

end RepetitionsBeforeWords

end DaapLog.GsubCuts

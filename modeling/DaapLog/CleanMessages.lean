import DaapLog.GsubWeights
import DaapLog.TextDispatch

/-!
The messages that the text branches of `process` leave as they are: the cleaning edits
the string of the record in place.
-/

namespace DaapLog.CleanMessages

open DaapLog.CStrings
open DaapLog.LinearPatterns
open DaapLog.PatternMatches
open DaapLog.GsubWeights
open DaapLog.PluginMessages
open DaapLog.CaliperReports

/-- A blank is replaced by the name `timestamp` at most. -/
def charWeight (c : Char) : Nat := if isspace c then 12 else 1

theorem charWeight_pos (c : Char) : 0 < charWeight c := by
  rw [charWeight]
  split <;> norm_num

theorem charWeight_of_space {c : Char} (hc : isspace c) : charWeight c = 12 := if_pos hc

section Cleaning

/-- The steps of `common_clean`. -/
def cleaning (code : Code) (first_field : Text) : List (Text → Text) :=
  [remove (bol ++ lit code.trigger 0),
    remove (lit ".localdomain".toList 0),
    remove (lit ".lanl.gov".toList 0),
    remove (lit "\\".toList 0),
    remove (lit "\"".toList 0),
    fun message =>
      if code.spaced then message
      else
        gsub (fieldsPattern first_field)
          (fun parts => ",".toList ++ capture (fieldsPattern first_field) parts 1) message,
    gsub timestampPattern fun parts =>
      capture timestampPattern parts 1 ++ ",timestamp=".toList ++
        capture timestampPattern parts 2]

theorem common_clean_eq_foldl (message : Text) (code : Code) (first_field : Text) :
    common_clean message code first_field =
      (cleaning code first_field).foldl (fun text f => f text) message := rfl

theorem one_mem_lit {word : Text} {c : Char} (h : c ∈ word) (g : Nat) :
    (Atom.one (· == c), g) ∈ lit word g :=
  List.mem_map.mpr ⟨c, h, rfl⟩

theorem separator_mem_trigger (code : Code) : code.separator ∈ code.trigger :=
  List.mem_append_right _ List.mem_cons_self

theorem fields_shrinks (first_field : Text) :
    Shrinks charWeight (fieldsPattern first_field) fun parts =>
      ",".toList ++ capture (fieldsPattern first_field) parts 1 :=
  shrinks_of_plus (by decide) fun c hc => by rw [charWeight_of_space hc]; decide

theorem timestamp_shrinks :
    Shrinks charWeight timestampPattern fun parts =>
      capture timestampPattern parts 1 ++ ",timestamp=".toList ++
        capture timestampPattern parts 2 := by
  intro parts hparts
  obtain ⟨p₀, parts₁, rfl, h₁, rfl⟩ := List.forall₂_cons_left_iff.mp hparts
  obtain ⟨p₁, parts₂, -, h₂, rfl⟩ := List.forall₂_cons_left_iff.mp h₁
  obtain ⟨p₂, parts₃, ⟨c, rfl, hc⟩, h₃, rfl⟩ := List.forall₂_cons_left_iff.mp h₂
  obtain ⟨p₃, parts₄, -, h₄, rfl⟩ := List.forall₂_cons_left_iff.mp h₃
  obtain ⟨p₄, parts₅, -, h₅, rfl⟩ := List.forall₂_cons_left_iff.mp h₄
  obtain ⟨p₅, parts₆, -, h₆, rfl⟩ := List.forall₂_cons_left_iff.mp h₅
  obtain rfl := List.forall₂_nil_left_iff.mp h₆
  have hspace : c = ' ' := beq_iff_eq.mp hc
  subst hspace
  have hone : capture timestampPattern [[], p₁, [' '], p₃, p₄, p₅] 1 = p₁ := by
    simp [capture, timestampPattern, bol, LinearPatterns.star, plus, cls, lit]
  have htwo : capture timestampPattern [[], p₁, [' '], p₃, p₄, p₅] 2 = p₃ ++ p₄ := by
    simp [capture, timestampPattern, bol, LinearPatterns.star, plus, cls, lit]
  have hname : weight charWeight ",timestamp=".toList = 11 := by decide
  have hblank : charWeight ' ' = 12 := rfl
  simp only [hone, htwo, List.flatten_cons, List.flatten_nil, List.nil_append, weight_append,
    weight_cons, weight_nil, hname, hblank]
  omega

theorem cleaning_lowers (code : Code) (first_field : Text) :
    ∀ f ∈ cleaning code first_field, Lowers charWeight f := by
  have hlit {word : Text} {c : Char} (h : c ∈ word) : Lowers charWeight (remove (lit word 0)) :=
    remove_lowers charWeight_pos (one_mem_lit h 0)
  have htrigger := one_mem_lit (separator_mem_trigger code) 0
  simp only [cleaning, List.forall_mem_cons]
  refine ⟨remove_lowers charWeight_pos (List.mem_append_right _ htrigger),
    hlit (c := '.') (by decide), hlit (c := '.') (by decide), hlit (c := '\\') (by decide),
    hlit (c := '"') (by decide), ?_, gsub_lowers timestamp_shrinks, by simp⟩
  split
  · exact lowers_id
  · exact gsub_lowers (fields_shrinks first_field)

theorem search_timestamp_isSome_iff (message : Text) :
    (search timestampPattern none message).isSome ↔
      ∃ d : Char, d.isDigit ∧ strstr message [' ', d] := by
  rw [search_isSome_iff]
  simp only [strstr, decide_eq_true_iff, timestampPattern, List.append_assoc]
  constructor
  · rintro ⟨front, back, rfl, -, line, rest, rfl, -, h⟩
    obtain ⟨rest, rfl, d, digits, rfl, hd, -⟩ := (starts_lit_iff " ".toList 0).mp h
    exact ⟨d, hd, front ++ line, digits, by simp⟩
  · rintro ⟨d, hd, front, back, rfl⟩
    obtain ⟨before, line, rfl, hbefore, hline⟩ := exists_last_line front
    refine ⟨before, line ++ ' ' :: d :: back, by simp, ?_, line, ' ' :: d :: back, rfl, hline, ?_⟩
    · exact (atBol_lastChar_iff (by simp)).mpr hbefore
    · refine (starts_lit_iff " ".toList 0).mpr ⟨d :: back, rfl, d, back, rfl, hd, ?_⟩
      exact ⟨[], back, rfl, by simp, [], back, rfl, by simp, trivial⟩

/-- There is nothing in the message for the cleaning of a code. -/
structure IsClean (code : Code) (message : Text) : Prop where
  trigger : ¬LineBegins message code.trigger
  localdomain : ¬strstr message ".localdomain".toList
  lanl : ¬strstr message ".lanl.gov".toList
  backslash : '\\' ∉ message
  quote : '"' ∉ message
  first_field : ¬code.spaced → ∀ c, isspace c → ¬strstr message (c :: (code.first_field ++ ['=']))
  timestamp : ∀ d : Char, d.isDigit → ¬strstr message [' ', d]

theorem strstr_singleton_iff (message : Text) (c : Char) : strstr message [c] ↔ c ∈ message := by
  rw [strstr, decide_eq_true_iff, List.singleton_infix_iff]

theorem remove_lit_eq_self_iff {word : Text} {c : Char} (h : c ∈ word) (message : Text) :
    remove (lit word 0) message = message ↔ ¬strstr message word := by
  rw [remove_eq_self_iff charWeight_pos (one_mem_lit h 0), ← search_lit_isSome_iff word 0,
    Bool.not_eq_true]

theorem remove_trigger_eq_self_iff (code : Code) (message : Text) :
    remove (bol ++ lit code.trigger 0) message = message ↔ ¬LineBegins message code.trigger := by
  have hone := one_mem_lit (separator_mem_trigger code) 0
  rw [remove_eq_self_iff charWeight_pos (List.mem_append_right bol hone),
    ← search_bol_lit_isSome_iff (List.ne_nil_of_mem (separator_mem_trigger code)) 0,
    Bool.not_eq_true]

theorem fields_eq_self_iff (first_field message : Text) :
    gsub (fieldsPattern first_field)
      (fun parts => ",".toList ++ capture (fieldsPattern first_field) parts 1) message = message ↔
      ∀ c, isspace c → ¬strstr message (c :: (first_field ++ ['='])) := by
  have hfound := search_plus_lit_isSome_iff isspace (first_field ++ ['=']) 0 1 message
  rw [gsub_eq_self_iff (fields_shrinks first_field), ← Bool.not_eq_true, fieldsPattern]
  exact (not_congr hfound).trans (by simp only [not_exists, not_and])

theorem timestamp_eq_self_iff (message : Text) :
    gsub timestampPattern (fun parts =>
      capture timestampPattern parts 1 ++ ",timestamp=".toList ++
        capture timestampPattern parts 2) message = message ↔
      ∀ d : Char, d.isDigit → ¬strstr message [' ', d] := by
  rw [gsub_eq_self_iff timestamp_shrinks, ← Bool.not_eq_true, search_timestamp_isSome_iff]
  simp only [not_exists, not_and]

theorem common_clean_eq_self_iff (code : Code) (message : Text) :
    common_clean message code code.first_field = message ↔ IsClean code message := by
  rw [common_clean_eq_foldl, foldl_eq_self_iff (cleaning_lowers code code.first_field)]
  simp only [cleaning, List.forall_mem_cons]
  rw [remove_trigger_eq_self_iff, remove_lit_eq_self_iff (c := '.') (by decide),
    remove_lit_eq_self_iff (c := '.') (by decide), remove_lit_eq_self_iff (c := '\\') (by decide),
    remove_lit_eq_self_iff (c := '"') (by decide), timestamp_eq_self_iff]
  have hfields : (if code.spaced then message
      else gsub (fieldsPattern code.first_field) (fun parts =>
        ",".toList ++ capture (fieldsPattern code.first_field) parts 1) message) = message ↔
      (¬code.spaced → ∀ c, isspace c → ¬strstr message (c :: (code.first_field ++ ['=']))) := by
    split
    · next h => exact iff_of_true rfl fun hnot => absurd h hnot
    · next h =>
        rw [fields_eq_self_iff]
        exact ⟨fun hc _ => hc, fun hc => hc h⟩
  rw [hfields]
  constructor
  · rintro ⟨htrigger, hlocal, hlanl, hslash, hquote, hfield, htimestamp, -⟩
    rw [show "\\".toList = ['\\'] from rfl, strstr_singleton_iff] at hslash
    rw [show "\"".toList = ['"'] from rfl, strstr_singleton_iff] at hquote
    exact ⟨htrigger, hlocal, hlanl, hslash, hquote, hfield, htimestamp⟩
  · intro h
    refine ⟨h.trigger, h.localdomain, h.lanl, ?_, ?_, h.first_field, h.timestamp, by simp⟩
    · rw [show "\\".toList = ['\\'] from rfl, strstr_singleton_iff]
      exact h.backslash
    · rw [show "\"".toList = ['"'] from rfl, strstr_singleton_iff]
      exact h.quote

end Cleaning

section Caliper

variable {message code : Text}

def BeginsWithCode (message : Text) : Prop :=
  ∃ code : Text, code ≠ [] ∧ (∀ c ∈ code, inCode c) ∧ LineBegins message (code ++ [','])

theorem caliperCode_isSome_iff (message : Text) :
    (caliperCode message).isSome ↔ BeginsWithCode message := by
  rw [caliperCode, Option.isSome_map, firstMatch_isSome_iff]
  simp only [codePattern, List.append_assoc]
  constructor
  · rintro ⟨front, back, rfl, hbol, h⟩
    obtain ⟨code, rest, rfl, hne, hcode, h⟩ := (starts_plus_iff inCode 1).mp h
    obtain ⟨rest, rfl⟩ := (starts_word_iff ",".toList 0).mp h
    refine ⟨code, hne, hcode, front, rest, by simp, ?_⟩
    exact (atBol_lastChar_iff (by simp [hne])).mp hbol
  · rintro ⟨code, hne, hcode, front, rest, rfl, hfront⟩
    refine ⟨front, code ++ ([','] ++ rest), by simp, ?_, ?_⟩
    · exact (atBol_lastChar_iff (by simp)).mpr hfront
    · refine (starts_plus_iff inCode 1).mpr ⟨code, [','] ++ rest, rfl, hne, hcode, ?_⟩
      exact (starts_word_iff ",".toList 0).mpr ⟨rest, rfl⟩

theorem lineBegins_of_caliperCode (h : caliperCode message = some code) :
    LineBegins message (code ++ [',']) := by
  obtain ⟨parts, hparts, rfl⟩ := Option.map_eq_some_iff.mp h
  obtain ⟨⟨before, parts, rest⟩, hsearch, rfl⟩ := Option.map_eq_some_iff.mp hparts
  obtain ⟨rfl, hmatch⟩ := search_sound hsearch
  obtain ⟨p₀, parts₁, rfl, h₁, rfl⟩ := List.forall₂_cons_left_iff.mp (matchHere_sound hmatch).1
  obtain ⟨p₁, parts₂, ⟨d, rfl, -⟩, h₂, rfl⟩ := List.forall₂_cons_left_iff.mp h₁
  obtain ⟨p₂, parts₃, -, h₃, rfl⟩ := List.forall₂_cons_left_iff.mp h₂
  obtain ⟨p₃, parts₄, ⟨c, rfl, hc⟩, h₄, rfl⟩ := List.forall₂_cons_left_iff.mp h₃
  obtain rfl := List.forall₂_nil_left_iff.mp h₄
  have hcomma : c = ',' := beq_iff_eq.mp hc
  subst hcomma
  have hcapture : capture codePattern [[], [d], p₂, [',']] 1 = d :: p₂ := by
    simp [capture, codePattern, bol, LinearPatterns.star, plus, cls, lit]
  obtain ⟨hbol, -⟩ :=
    (matchHere_isSome_iff _ _ _).mp (Option.isSome_iff_exists.mpr ⟨_, hmatch⟩)
  simp only [hcapture]
  exact ⟨before, rest, by simp, (atBol_lastChar_iff (by simp)).mp hbol⟩

/-- What the branch for caliper reports leaves of a message with a code. -/
def caliperRest (message code : Text) : Text :=
  gsub tailPattern (fun parts => capture tailPattern parts 1) (caliperClean message code)

def caliperSteps (code : Text) : List (Text → Text) :=
  [remove (bol ++ lit code 0 ++ lit ",".toList 0),
    remove (lit "\n".toList 0 ++ eol),
    remove (lit "\\n".toList 0 ++ eol),
    gsub endPattern fun parts => ",timestamp=".toList ++ capture endPattern parts 1,
    gsub tailPattern fun parts => capture tailPattern parts 1]

theorem caliperRest_eq_foldl (message code : Text) :
    caliperRest message code = (caliperSteps code).foldl (fun text f => f text) message := rfl

theorem caliperSteps_lowers (code : Text) : ∀ f ∈ caliperSteps code, Lowers charWeight f := by
  have hremove {pattern : Pattern} {word : Text} {c : Char} (hc : c ∈ word)
      (hword : lit word 0 ⊆ pattern) : Lowers charWeight (remove pattern) :=
    remove_lowers charWeight_pos (hword (one_mem_lit hc 0))
  have hend : Shrinks charWeight endPattern fun parts =>
      ",timestamp=".toList ++ capture endPattern parts 1 := by
    rw [endPattern, List.append_assoc]
    exact shrinks_of_plus (by decide) fun c hc => by rw [charWeight_of_space hc]; decide
  have htail : Shrinks charWeight tailPattern fun parts => capture tailPattern parts 1 := by
    simp only [tailPattern, List.append_assoc]
    exact @shrinks_of_plus charWeight isspace _ 1 [] (by decide) fun c _ => charWeight_pos c
  simp only [caliperSteps, List.forall_mem_cons]
  refine ⟨hremove (c := ',') (by decide) (List.subset_append_right _ _),
    hremove (c := '\n') (by decide) (List.subset_append_left _ _),
    hremove (c := '\\') (by decide) (List.subset_append_left _ _), gsub_lowers hend,
    gsub_lowers htail, by simp⟩

/-- A message with a code loses it, and nothing that is put in makes up for that. -/
theorem caliperRest_ne (h : caliperCode message = some code) : caliperRest message code ≠ message := by
  rw [caliperRest_eq_foldl, ne_eq, foldl_eq_self_iff (caliperSteps_lowers code)]
  intro hsame
  have hcode := hsame _ List.mem_cons_self
  have hword : bol ++ lit code 0 ++ lit ",".toList 0 = bol ++ lit (code ++ [',']) 0 := by
    simp [lit]
  have hcomma : ',' ∈ code ++ [','] := by simp
  rw [hword, remove_eq_self_iff charWeight_pos (List.mem_append_right _ (one_mem_lit hcomma 0)),
    ← Bool.not_eq_true, search_bol_lit_isSome_iff (by simp)] at hcode
  exact hcode (lineBegins_of_caliperCode h)

end Caliper

end DaapLog.CleanMessages

import DaapLog.GsubCuts
import DaapLog.TextRecords

/-!
The rows of sap caliper reports: the depth of a path in the call tree is the number of
blanks in front of it, which are looked for behind digits and one more blank.
-/

namespace DaapLog.CaliperIndentation

open DaapLog.CStrings
open DaapLog.OrderedHash
open DaapLog.LinearPatterns
open DaapLog.PatternMatches
open DaapLog.GreedyMatches
open DaapLog.GsubCuts
open DaapLog.RubyValues
open DaapLog.PluginActions
open DaapLog.PluginMessages
open DaapLog.CaliperReports
open DaapLog.TextDispatch
open DaapLog.PluginProcess
open DaapLog.TextRecords
open DaapLog.RubyStrings (words strip splitItem HasValue)

section Words

theorem words_append_blank {c : Char} (hc : isspace c) (front back : Text) :
    words (front ++ c :: back) = words front ++ words back := by
  rw [words, List.splitOnP_append_cons front back hc, List.filter_append]
  rfl

theorem words_blanks {blanks : Text} (h : ∀ c ∈ blanks, isspace c) (text : Text) :
    words (blanks ++ text) = words text := by
  induction blanks with
  | nil => rfl
  | cons c blanks ih =>
      rw [List.forall_mem_cons] at h
      have hcons : words (c :: (blanks ++ text)) = words [] ++ words (blanks ++ text) :=
        words_append_blank h.1 [] (blanks ++ text)
      rw [List.cons_append, hcons, ih h.2]
      rfl

theorem words_word {text : Text} (hne : text ≠ []) (h : ∀ c ∈ text, isspace c = false) : words text = [text] := by
  rw [words, List.splitOnP_eq_singleton h]
  simp [hne]

theorem cut_at_blank (text : Text) :
    (∀ c ∈ text, isspace c = false) ∨ ∃ front c back, text = front ++ c :: back ∧
      (∀ c ∈ front, isspace c = false) ∧ isspace c := by
  induction text with
  | nil => exact .inl (by simp)
  | cons c text ih =>
      cases hc : isspace c with
      | true => exact .inr ⟨[], c, text, rfl, by simp, hc⟩
      | false =>
          rcases ih with hall | ⟨front, d, back, rfl, hfront, hd⟩
          · exact .inl (List.forall_mem_cons.mpr ⟨hc, hall⟩)
          · exact .inr ⟨c :: front, d, back, rfl, List.forall_mem_cons.mpr ⟨hc, hfront⟩, hd⟩

theorem of_mem_words {word text : Text} (h : word ∈ words text) :
    word ≠ [] ∧ ∀ c ∈ word, isspace c = false ∧ c ∈ text := by
  have hline {front : Text} (hfront : ∀ c ∈ front, isspace c = false) (h : word ∈ words front) :
      word ≠ [] ∧ word = front := by
    have hne : front ≠ [] := by
      rintro rfl
      exact absurd h List.not_mem_nil
    rw [words_word hne hfront, List.mem_singleton] at h
    exact ⟨h ▸ hne, h⟩
  rcases cut_at_blank text with hall | ⟨front, d, back, htext, hfront, hd⟩
  · obtain ⟨hne, rfl⟩ := hline hall h
    exact ⟨hne, fun c hc => ⟨hall c hc, hc⟩⟩
  · rw [htext, words_append_blank hd, List.mem_append] at h
    rcases h with h | h
    · obtain ⟨hne, rfl⟩ := hline hfront h
      exact ⟨hne, fun c hc => ⟨hfront c hc, by rw [htext]; simp [hc]⟩⟩
    · obtain ⟨hne, hword⟩ := of_mem_words h
      exact ⟨hne, fun c hc => ⟨(hword c hc).1, by rw [htext]; simp [(hword c hc).2]⟩⟩
termination_by text.length
decreasing_by
  rw [htext, List.length_append, List.length_cons]
  omega

/-- To replace each run of blanks by one changes no word. -/
theorem words_gsubAt_blanks (prev : Option Char) (text : Text) :
    words (gsubAt (plus isspace 0) (fun _ => " ".toList) prev text) = words text := by
  rcases cut_at_blank text with hall | ⟨front, d, back, htext, hfront, hd⟩
  · rw [gsubAt_of_missing (show (Atom.one isspace, 0) ∈ plus isspace 0 from List.mem_cons_self)
      hall]
  · have hrun : ∀ c ∈ d :: back.takeWhile isspace, isspace c :=
      List.forall_mem_cons.mpr ⟨hd, fun c hc => List.mem_takeWhile_imp hc⟩
    have hrest : ∀ c ∈ (back.dropWhile isspace).head?, ¬isspace c := by
      intro c hc
      have hhead := List.head?_dropWhile_not isspace back
      rw [Option.mem_def.mp hc] at hhead
      simpa using hhead
    have hback : back = back.takeWhile isspace ++ back.dropWhile isspace :=
      List.takeWhile_append_dropWhile.symm
    have hcut : text = front ++ (d :: back.takeWhile isspace ++ back.dropWhile isspace) := by
      rw [List.cons_append, ← hback, htext]
    have hlast := words_gsubAt_blanks
      (lastChar (lastChar prev front) (d :: back.takeWhile isspace)) (back.dropWhile isspace)
    have hblank (rest : Text) : words (front ++ (" ".toList ++ rest)) = words front ++ words rest :=
      words_append_blank (c := ' ') rfl front rest
    rw [hcut, gsubAt_plus_copy hfront, gsubAt_plus_run hrun hrest, hblank, List.cons_append,
      words_append_blank hd, hlast, words_blanks]
    exact fun c hc => List.mem_takeWhile_imp hc
termination_by text.length
decreasing_by
  have hle := (List.dropWhile_suffix (p := isspace) (l := back)).length_le
  rw [htext, List.length_append, List.length_cons]
  omega

end Words

/-- The text in quotes of the first caliper item. -/
def Quotes (message quoted : Text) : Prop :=
  (firstMatch readingPattern (caliperClean message "sap".toList)).map
    (fun parts => capture readingPattern parts 2) = some quoted

def IsNumber (text : Text) : Prop := text ≠ [] ∧ ∀ c ∈ text, c.isDigit ∨ c ∈ ".+-eE".toList

/-- A number behind one or more blanks. -/
def column (e : Nat × Text) : Text := List.replicate (e.1 + 1) ' ' ++ e.2

/-- A row: the number of processes, a path behind `k + 1` blanks, and five numbers. There may
be blanks and backslashes at its end. -/
structure IsRow (quoted numpe : Text) (k : Nat) (path : Text) : Prop where
  digits : numpe ≠ [] ∧ ∀ c ∈ numpe, c.isDigit
  bare : ' ' ∉ path ∧ '"' ∉ path
  text : ∃ (columns : List (Nat × Text)) (trail : Text), columns.length = 5 ∧
    (∀ e ∈ columns, IsNumber e.2) ∧ (∀ c ∈ trail, c = ' ' ∨ c = '\\') ∧
    quoted = numpe ++ ' ' :: (List.replicate k ' ' ++ (path ++ (columns.flatMap column ++ trail)))

/-- The record has the path of a row and its depth in the call tree. -/
structure Recovered (m : Record) (numpe : Text) (k : Nat) (path : Text) : Prop where
  numpe_eq : get m "numpe".toList = some (.str numpe)
  path_eq : get m "path".toList = some (.str path)
  indent_eq : get m "path_with_indent".toList = some (.str (List.replicate k ' ' ++ path))
  length_eq : get m "path_indent_len".toList = some (.num k)

/-- The same of the fields that a branch pushes. -/
structure HasRow (new_rec : Fields) (numpe : Text) (k : Nat) (path : Text) : Prop where
  numpe_eq : get new_rec "numpe".toList = some (.str numpe)
  path_eq : get new_rec "path".toList = some (.str path)
  indent_eq : get new_rec "path_with_indent".toList = some (.str (List.replicate k ' ' ++ path))
  length_eq : get new_rec "path_indent_len".toList = some (.num k)

/-- The path is indented and a single word, and the other items do not interfere. -/
structure Recoverable (message numpe : Text) (k : Nat) (path : Text) : Prop where
  indented : 1 ≤ k
  word : path ≠ [] ∧ ∀ c ∈ path, isspace c = false ∧ c ≠ '\\'
  items : ∀ item ∈ caliperPairs message "sap".toList, HasValue item
  free : ∀ key ∈ ["path_with_indent".toList, "path_indent_len".toList],
    itemValue key (caliperPairs message "sap".toList) = none
  same : ∀ kv ∈ [("numpe".toList, numpe), ("path".toList, path)],
    ∀ value ∈ itemValue kv.1 (caliperPairs message "sap".toList), value = kv.2

section Fields

variable {rb : Runtime} {reading : Reading} {new_rec r : Fields}

theorem get_pathFields {key : Text}
    (hkey : key ∉ ["min_time", "max_time", "avg_time", "time_percentage", "allocated_mb"].map
      String.toList) (path path_indent : Text) (times : List Text) (new_rec : Fields) :
    get (pathFields rb path path_indent times new_rec) key =
      get (set (set (set new_rec "path".toList (.str path)) "path_with_indent".toList
        (.str (path_indent ++ path))) "path_indent_len".toList (.num path_indent.length)) key := by
  refine get_foldl_set Prod.fst _ ?_ _
  rintro item hitem rfl
  exact hkey (List.fst_mem_of_mem_zipIdx hitem)

/-- What a complete reading of a sap report leaves in its record. -/
theorem fields_eq_some (h : reading.fields rb "sap".toList new_rec = some r) :
    ∃ numpe path times parts, reading.caliper_pairs = numpe :: path :: times ∧
      firstMatch indentPattern reading.caliper_metrics = some parts ∧
      get r "numpe".toList = some (.str numpe) ∧ get r "path".toList = some (.str path) ∧
      get r "path_with_indent".toList = some (.str (capture indentPattern parts 1 ++ path)) ∧
      get r "path_indent_len".toList = some (.num (capture indentPattern parts 1).length) := by
  rw [Reading.fields, if_pos rfl] at h
  rcases hpairs : reading.caliper_pairs with _ | ⟨numpe, _ | ⟨path, times⟩⟩
  · rw [hpairs] at h
    exact absurd h (Option.some_ne_none r).symm
  · rw [hpairs] at h
    exact absurd h (Option.some_ne_none r).symm
  · cases hindent : firstMatch indentPattern reading.caliper_metrics with
    | none =>
        rw [hpairs, hindent] at h
        exact absurd h (Option.some_ne_none r).symm
    | some parts =>
        rw [hpairs, hindent] at h
        obtain rfl := Option.some.inj h
        refine ⟨numpe, path, times, parts, rfl, rfl, ?_, ?_, ?_, ?_⟩
        all_goals simp (disch := decide) only [get_pathFields, get_set_of_ne, get_set_self]

theorem capture_indent {text : Text} {parts : List Text}
    (h : firstMatch indentPattern text = some parts) : capture indentPattern parts 1 ≠ [] := by
  obtain ⟨⟨before, found, rest⟩, hsearch, rfl⟩ := Option.map_eq_some_iff.mp h
  obtain ⟨-, hmatch⟩ := search_sound hsearch
  obtain ⟨p₀, parts₁, -, h₁, rfl⟩ := List.forall₂_cons_left_iff.mp (matchHere_sound hmatch).1
  obtain ⟨p₁, parts₂, -, h₂, rfl⟩ := List.forall₂_cons_left_iff.mp h₁
  obtain ⟨p₂, parts₃, -, h₃, rfl⟩ := List.forall₂_cons_left_iff.mp h₂
  obtain ⟨p₃, parts₄, ⟨c, rfl, -⟩, h₄, rfl⟩ := List.forall₂_cons_left_iff.mp h₃
  obtain ⟨p₄, parts₅, -, h₅, rfl⟩ := List.forall₂_cons_left_iff.mp h₄
  obtain ⟨p₅, parts₆, -, h₆, rfl⟩ := List.forall₂_cons_left_iff.mp h₅
  obtain rfl := List.forall₂_nil_left_iff.mp h₆
  simp [capture, indentPattern, LinearPatterns.star, plus, cls]

end Fields

section Rows

variable {quoted numpe path : Text} {k : Nat}

theorem inLine_of_isDigit {c : Char} (hc : c.isDigit) : inLine c := by
  rw [inLine, bne_iff_ne]
  rintro rfl
  exact absurd hc (by decide)

theorem inLine_column {e : Nat × Text} (he : IsNumber e.2) : ∀ c ∈ column e, inLine c := by
  have hsigns : ∀ c ∈ ".+-eE".toList, inLine c := by simp [inLine]
  intro c hc
  rcases List.mem_append.mp hc with hc | hc
  · rw [List.eq_of_mem_replicate hc]
    decide
  · rcases he.2 c hc with hdigit | hsign
    · exact inLine_of_isDigit hdigit
    · exact hsigns c hsign

theorem IsRow.one_line (h : IsRow quoted numpe k path) (hword : ∀ c ∈ path, isspace c = false) :
    ∀ c ∈ quoted, inLine c := by
  obtain ⟨columns, trail, -, hnumbers, htrail, rfl⟩ := h.text
  intro c hc
  simp only [List.mem_append, List.mem_cons, List.mem_flatMap] at hc
  rcases hc with hc | rfl | hc | hc | ⟨e, he, hc⟩ | hc
  · exact inLine_of_isDigit (h.digits.2 c hc)
  · decide
  · rw [List.eq_of_mem_replicate hc]
    decide
  · rw [inLine, bne_iff_ne]
    rintro rfl
    exact absurd (hword _ hc) (by decide)
  · exact inLine_column (hnumbers e he) c hc
  · rcases htrail c hc with rfl | rfl
    · decide
    · decide

/-- Without backslashes a row with a word for its path has one blank behind the path, and
is one line. -/
theorem exists_columns (h : IsRow quoted numpe k path)
    (hword : ∀ c ∈ path, isspace c = false ∧ c ≠ '\\') :
    ∃ columns, quoted.filter (· ≠ '\\') =
        numpe ++ ' ' :: (List.replicate k ' ' ++ (path ++ ' ' :: columns)) ∧
      ∀ c ∈ quoted.filter (· ≠ '\\'), inLine c := by
  have hline := h.one_line fun c hc => (hword c hc).1
  obtain ⟨columns, trail, hfive, -, -, rfl⟩ := h.text
  obtain ⟨first, columns, rfl⟩ := List.exists_cons_of_length_eq_add_one hfive
  have hkeep {text : Text} (htext : '\\' ∉ text) : text.filter (· ≠ '\\') = text := by
    rw [List.filter_eq_self]
    intro c hc
    rw [decide_eq_true_iff]
    rintro rfl
    exact htext hc
  have hspace (text : Text) : (' ' :: text).filter (· ≠ '\\') = ' ' :: text.filter (· ≠ '\\') :=
    List.filter_cons_of_pos (by decide)
  have hnumpe : '\\' ∉ numpe := fun hc => absurd (h.digits.2 _ hc) (by decide)
  have hpath : '\\' ∉ path := fun hc => (hword _ hc).2 rfl
  have hblanks : '\\' ∉ List.replicate k ' ' :=
    fun hc => absurd (List.eq_of_mem_replicate hc) (by decide)
  refine ⟨(List.replicate first.1 ' ' ++ (first.2 ++ (columns.flatMap column ++ trail))).filter
    (· ≠ '\\'), ?_, fun c hc => hline c (List.mem_of_mem_filter hc)⟩
  rw [List.flatMap_cons, column, List.replicate_succ]
  simp only [List.filter_append, List.cons_append, List.append_assoc, hspace, hkeep hnumpe,
    hkeep hpath, hkeep hblanks]

theorem reading_of_row {message : Text} (hquotes : Quotes message quoted) :
    ∃ reading, caliperReading (caliperClean message "sap".toList) = some reading ∧
      reading.caliper_metrics =
        ((quoted.filter (· ≠ '\\')).dropWhile isspace).takeWhile inLine := by
  obtain ⟨parts, hparts, hcapture⟩ := Option.map_eq_some_iff.mp hquotes
  refine ⟨_, by rw [caliperReading, hparts]; rfl, ?_⟩
  have hslash : "\\".toList = ['\\'] := rfl
  simp only [hcapture, hslash, remove_char]

theorem caliper_pairs_eq (reading : Reading) :
    reading.caliper_pairs = words reading.caliper_metrics := by
  rw [Reading.caliper_pairs, gsub_eq_gsubAt, words_gsubAt_blanks]

/-- The blanks behind the number of processes and one blank are captured. -/
theorem indent_of_row (hdigits : numpe ≠ [] ∧ ∀ c ∈ numpe, c.isDigit) (hk : 1 ≤ k)
    {rest : Text} (hrest : ∀ c ∈ rest, inLine c) (hhead : ∀ c ∈ rest.head?, isspace c = false) :
    ∃ parts, firstMatch indentPattern (numpe ++ ' ' :: (List.replicate k ' ' ++ rest)) =
        some parts ∧ capture indentPattern parts 1 = List.replicate k ' ' := by
  obtain ⟨d, more, rfl⟩ := List.exists_cons_of_ne_nil hdigits.1
  obtain ⟨k, rfl⟩ := Nat.exists_eq_add_one_of_ne_zero (Nat.ne_of_gt hk)
  have hblank : ∀ c ∈ ' ' :: List.replicate k ' ', isspace c := by
    intro c hc
    obtain rfl : c = ' ' := List.eq_of_mem_replicate (List.replicate_succ ▸ hc)
    rfl
  have hall (prev : Option Char) : matchHere (LinearPatterns.star inLine 0) prev rest =
      some ([rest], []) := by
    rw [LinearPatterns.star, matchHere, matchMany_all hrest]
    rfl
  have hspaces (prev : Option Char) := @matchHere_plus (LinearPatterns.star inLine 0) prev rest []
    [rest] isspace ' ' (List.replicate k ' ') 1 hblank (by simpa using hhead) (hall _)
  have hcls (prev : Option Char) :
      matchHere (cls isspace 0 ++ (plus isspace 1 ++ LinearPatterns.star inLine 0)) prev
        (' ' :: (' ' :: List.replicate k ' ' ++ rest)) =
      some ([' '] :: [' '] :: List.replicate k ' ' :: [rest], []) := by
    have hspace : isspace ' ' = true := rfl
    rw [cls, List.singleton_append, matchHere, if_pos hspace, hspaces]
    rfl
  have hmatch := @matchHere_plus
    (cls isspace 0 ++ (plus isspace 1 ++ LinearPatterns.star inLine 0)) none
    (' ' :: (' ' :: List.replicate k ' ' ++ rest)) [] _ Char.isDigit d more 0 hdigits.2
    (by simp) (hcls _)
  have hpattern : indentPattern = plus Char.isDigit 0 ++
      (cls isspace 0 ++ (plus isspace 1 ++ LinearPatterns.star inLine 0)) := by
    simp only [indentPattern, List.append_assoc]
  refine ⟨[d] :: more :: [' '] :: [' '] :: List.replicate k ' ' :: [rest], ?_, ?_⟩
  · rw [firstMatch, hpattern, List.replicate_succ, search_of_matchHere hmatch]
    rfl
  · simp [capture, indentPattern, LinearPatterns.star, plus, cls, List.replicate_succ]

theorem fields_of_row {rb : Runtime} {reading : Reading} {new_rec : Fields}
    (h : IsRow quoted numpe k path) (hk : 1 ≤ k)
    (hword : path ≠ [] ∧ ∀ c ∈ path, isspace c = false ∧ c ≠ '\\')
    (hreading : reading.caliper_metrics =
      ((quoted.filter (· ≠ '\\')).dropWhile isspace).takeWhile inLine) :
    ∃ r, reading.fields rb "sap".toList new_rec = some r ∧ HasRow r numpe k path := by
  obtain ⟨columns, hquoted, hline⟩ := exists_columns h hword.2
  have hnumpe : ∀ c ∈ numpe, isspace c = false :=
    fun c hc => RubyStrings.isspace_of_isDigit (h.digits.2 c hc)
  obtain ⟨d, more, hd⟩ := List.exists_cons_of_ne_nil h.digits.1
  have hmetrics : reading.caliper_metrics =
      numpe ++ ' ' :: (List.replicate k ' ' ++ (path ++ ' ' :: columns)) := by
    rw [hquoted] at hline hreading
    rw [hreading, hd, List.cons_append, List.dropWhile_cons_of_neg, ← List.cons_append, ← hd,
      List.takeWhile_eq_self_iff.mpr hline]
    rw [hnumpe d (by rw [hd]; exact List.mem_cons_self)]
    exact Bool.false_ne_true
  have hblanks : ∀ c ∈ List.replicate k ' ', isspace c := by
    intro c hc
    rw [List.eq_of_mem_replicate hc]
    rfl
  have hpairs : reading.caliper_pairs = numpe :: path :: words columns := by
    rw [caliper_pairs_eq, hmetrics, words_append_blank rfl, words_word h.digits.1 hnumpe,
      words_blanks hblanks, words_append_blank rfl,
      words_word hword.1 fun c hc => (hword.2 c hc).1]
    rfl
  obtain ⟨p, rest, hp⟩ := List.exists_cons_of_ne_nil hword.1
  have hrest : ∀ c ∈ path ++ ' ' :: columns, inLine c := by
    intro c hc
    refine hline c ?_
    rw [hquoted]
    exact List.mem_append_right _ (List.mem_cons_of_mem _ (List.mem_append_right _ hc))
  have hhead : ∀ c ∈ (path ++ ' ' :: columns).head?, isspace c = false := by
    intro c hc
    rw [hp] at hc
    obtain rfl := Option.some.inj hc
    exact (hword.2 p (by rw [hp]; exact List.mem_cons_self)).1
  obtain ⟨parts, hparts, hcapture⟩ := indent_of_row h.digits hk hrest hhead
  have hcomplete : (reading.fields rb "sap".toList new_rec).isSome := by
    rw [Reading.fields_isSome_iff, Reading.Complete, if_pos rfl, hpairs, hmetrics, hparts]
    exact ⟨Nat.le_add_left 2 _, rfl⟩
  obtain ⟨r, hr⟩ := Option.isSome_iff_exists.mp hcomplete
  obtain ⟨numpe', path', times, parts', hpairs', hparts', hgets⟩ := fields_eq_some hr
  rw [hpairs] at hpairs'
  obtain ⟨rfl, htail⟩ := List.cons.inj hpairs'
  obtain ⟨rfl, -⟩ := List.cons.inj htail
  rw [hmetrics, hparts] at hparts'
  obtain rfl := Option.some.inj hparts'
  rw [hcapture, List.length_replicate] at hgets
  exact ⟨r, hr, hgets.1, hgets.2.1, hgets.2.2.1, hgets.2.2.2⟩

end Rows

section Records

variable {rb : Runtime} {e : Event} {message quoted numpe path : Text} {k : Nat}

theorem caliperFields_timestamp {new_rec : Fields}
    (h : caliperFields rb message "sap".toList = some new_rec) :
    ∃ ts : ℚ, get new_rec "timestamp".toList = some (.num ts) := by
  obtain ⟨r, -, rfl⟩ := Option.map_eq_some_iff.mp h
  exact ⟨_, get_set_self _ _ _⟩

theorem exists_recovered_iff (hcaliper : strstr message caliperTrigger)
    (hcode : caliperCode message = some "sap".toList) (htext : IsText rb e message) :
    (∃ out, Emits rb e out ∧ Recovered out.2 numpe k path) ↔
      ∃ new_rec, caliperFields rb message "sap".toList = some new_rec ∧
        HasRow new_rec numpe k path := by
  have hactions : eventActions rb e = pushed (caliperFields rb message "sap".toList) := by
    rw [eventActions_of_isText htext, textActions, if_pos hcaliper, caliper_metrics, hcode]
  cases hfields : caliperFields rb message "sap".toList with
  | none =>
      rw [hfields] at hactions
      refine iff_of_false ?_ ?_
      · rintro ⟨out, hout, -⟩
        exact not_emits_of_raise hactions out hout
      · rintro ⟨new_rec, h, -⟩
        exact absurd h (Option.some_ne_none new_rec).symm
  | some new_rec =>
      rw [hfields] at hactions
      obtain ⟨ts, hts⟩ := caliperFields_timestamp hfields
      obtain ⟨m, hemits, hm⟩ := emits_of_push hactions hts
      have hrow : Recovered m numpe k path ↔ HasRow new_rec numpe k path := by
        constructor
        · rintro ⟨h₁, h₂, h₃, h₄⟩
          rw [hm _ (by decide), map_toVal_str_iff] at h₁ h₂ h₃
          rw [hm _ (by decide), map_toVal_num_iff] at h₄
          exact ⟨h₁, h₂, h₃, h₄⟩
        · rintro ⟨h₁, h₂, h₃, h₄⟩
          constructor
          · rw [hm _ (by decide), map_toVal_str_iff, h₁]
          · rw [hm _ (by decide), map_toVal_str_iff, h₂]
          · rw [hm _ (by decide), map_toVal_str_iff, h₃]
          · rw [hm _ (by decide), map_toVal_num_iff, h₄]
      constructor
      · rintro ⟨out, hout, hrecovered⟩
        obtain rfl := hemits.unique hout
        exact ⟨new_rec, rfl, hrow.mp hrecovered⟩
      · rintro ⟨new_rec', h, hhas⟩
        obtain rfl := Option.some.inj h
        exact ⟨_, hemits, hrow.mpr hhas⟩

/-- The items of a report lie over the fields of its reading. -/
def Overlaid (message : Text) (base new_rec : Fields) : Prop :=
  ∀ key, key ≠ "timestamp".toList → key ≠ "job_id".toList → get new_rec key =
    ((itemValue key (caliperPairs message "sap".toList)).map Scalar.str).or (get base key)

/-- The fields of a report are those of its reading unless an item replaces them. -/
theorem overlaid_of_caliperFields {reading : Reading} {new_rec : Fields}
    (hreading : caliperReading (caliperClean message "sap".toList) = some reading)
    (h : caliperFields rb message "sap".toList = some new_rec) :
    ∃ base, reading.fields rb "sap".toList (newReport "sap".toList) = some base ∧
      (∀ item ∈ caliperPairs message "sap".toList, HasValue item) ∧
      Overlaid message base new_rec := by
  rw [caliperFields, hreading] at h
  obtain ⟨r, hr, rfl⟩ := Option.map_eq_some_iff.mp h
  obtain ⟨base, hbase, hitems⟩ := Option.bind_eq_some_iff.mp hr
  refine ⟨base, hbase, ?_, fun key htime hjob => ?_⟩
  · rw [← addItems_isSome_iff base, hitems]
    rfl
  · rw [stamp, get_set_of_ne htime, get_dropDashes hjob, get_addItems key hitems]

theorem strip_head {text rest : Text} {c : Char} (h : strip text = c :: rest) :
    RubyStrings.isBlank c = false := by
  have hprefix : strip text <+: text.dropWhile RubyStrings.isBlank := List.rdropWhile_prefix _ _
  have hhead := List.head?_dropWhile_not RubyStrings.isBlank text
  obtain ⟨tail, htail⟩ := hprefix
  rw [h] at htail
  rw [← htail] at hhead
  exact hhead

theorem itemValue_head {key rest : Text} {c : Char} {pairs : List Text}
    (h : itemValue key pairs = some (c :: rest)) : RubyStrings.isBlank c = false := by
  obtain ⟨kv, hkv, hvalue⟩ := Option.map_eq_some_iff.mp h
  obtain ⟨item, -, hitem⟩ := List.mem_filterMap.mp (List.mem_reverse.mp (List.mem_of_find?_eq_some hkv))
  rw [splitItem] at hitem
  split at hitem
  · obtain rfl := Option.some.inj hitem
    exact strip_head hvalue
  · exact absurd hitem (Option.some_ne_none kv).symm

section Overlays

variable {base new_rec : Fields} {key : Text}

theorem Overlaid.get_of_none (hover : Overlaid message base new_rec)
    (hnone : itemValue key (caliperPairs message "sap".toList) = none)
    (htime : key ≠ "timestamp".toList) (hjob : key ≠ "job_id".toList) :
    get new_rec key = get base key := by
  rw [hover key htime hjob, hnone]
  rfl

theorem Overlaid.get_of_some (hover : Overlaid message base new_rec) {value : Text}
    (hvalue : itemValue key (caliperPairs message "sap".toList) = some value)
    (htime : key ≠ "timestamp".toList) (hjob : key ≠ "job_id".toList) :
    get new_rec key = some (.str value) := by
  rw [hover key htime hjob, hvalue]
  rfl

/-- A text for the depth is no number, so no item has given it. -/
theorem Overlaid.depth_eq (hover : Overlaid message base new_rec)
    (hhas : HasRow new_rec numpe k path) {blanks : Text}
    (hlength : get base "path_indent_len".toList = some (.num blanks.length)) :
    itemValue "path_indent_len".toList (caliperPairs message "sap".toList) = none ∧
      blanks.length = k := by
  have hnone : itemValue "path_indent_len".toList (caliperPairs message "sap".toList) = none := by
    cases hvalue : itemValue "path_indent_len".toList (caliperPairs message "sap".toList) with
    | none => rfl
    | some value =>
        have htext := hover.get_of_some hvalue (by decide) (by decide)
        exact Scalar.noConfusion (Option.some.inj (htext.symm.trans hhas.length_eq))
  refine ⟨hnone, ?_⟩
  have hnumber := hhas.length_eq
  rw [hover.get_of_none hnone (by decide) (by decide), hlength] at hnumber
  exact Nat.cast_injective (Scalar.num.inj (Option.some.inj hnumber))

/-- The value of an item has no blanks in front, so no item has given an indented path. -/
theorem Overlaid.path_eq (hover : Overlaid message base new_rec)
    (hhas : HasRow new_rec numpe k path) (hk : 1 ≤ k) {blanks path' : Text}
    (hlength : blanks.length = k)
    (hindent : get base "path_with_indent".toList = some (.str (blanks ++ path'))) :
    itemValue "path_with_indent".toList (caliperPairs message "sap".toList) = none ∧
      path' = path := by
  have hnone : itemValue "path_with_indent".toList (caliperPairs message "sap".toList) = none := by
    cases hvalue : itemValue "path_with_indent".toList (caliperPairs message "sap".toList) with
    | none => rfl
    | some value =>
        have htext := hover.get_of_some hvalue (by decide) (by decide)
        obtain rfl := Scalar.str.inj (Option.some.inj (htext.symm.trans hhas.indent_eq))
        obtain ⟨n, rfl⟩ := Nat.exists_eq_add_one_of_ne_zero (Nat.ne_of_gt hk)
        rw [List.replicate_succ] at hvalue
        exact absurd (itemValue_head hvalue) (by decide)
  refine ⟨hnone, ?_⟩
  have htext := hhas.indent_eq
  rw [hover.get_of_none hnone (by decide) (by decide), hindent] at htext
  refine List.append_inj_right (Scalar.str.inj (Option.some.inj htext)) ?_
  rw [hlength, List.length_replicate]

theorem Overlaid.same (hover : Overlaid message base new_rec) {v : Text}
    (hv : get new_rec key = some (.str v)) (htime : key ≠ "timestamp".toList)
    (hjob : key ≠ "job_id".toList) :
    ∀ value ∈ itemValue key (caliperPairs message "sap".toList), value = v := by
  intro value hvalue
  have htext := hover.get_of_some hvalue htime hjob
  exact Scalar.str.inj (Option.some.inj (htext.symm.trans hv))

theorem Overlaid.get_of_same (hover : Overlaid message base new_rec) {v : Text}
    (hsame : ∀ value ∈ itemValue key (caliperPairs message "sap".toList), value = v)
    (hv : get base key = some (.str v)) (htime : key ≠ "timestamp".toList)
    (hjob : key ≠ "job_id".toList) : get new_rec key = some (.str v) := by
  cases hvalue : itemValue key (caliperPairs message "sap".toList) with
  | none => rw [hover.get_of_none hvalue htime hjob, hv]
  | some value =>
      rw [hover.get_of_some hvalue htime hjob, hsame value hvalue]

end Overlays

theorem word_of_reading {reading : Reading}
    (hmetrics : reading.caliper_metrics =
      ((quoted.filter (· ≠ '\\')).dropWhile isspace).takeWhile inLine)
    (hpath : path ∈ reading.caliper_pairs) :
    path ≠ [] ∧ ∀ c ∈ path, isspace c = false ∧ c ≠ '\\' := by
  rw [caliper_pairs_eq] at hpath
  obtain ⟨hne, hchars⟩ := of_mem_words hpath
  refine ⟨hne, fun c hc => ⟨(hchars c hc).1, ?_⟩⟩
  have hmem := (hchars c hc).2
  rw [hmetrics] at hmem
  have hkept := (List.dropWhile_sublist _).subset ((List.takeWhile_sublist _).subset hmem)
  exact of_decide_eq_true (List.mem_filter.mp hkept).2

theorem recoverable_of_hasRow (hquotes : Quotes message quoted) {new_rec : Fields}
    (hfields : caliperFields rb message "sap".toList = some new_rec)
    (hhas : HasRow new_rec numpe k path) : Recoverable message numpe k path := by
  obtain ⟨reading, hreading, hmetrics⟩ := reading_of_row hquotes
  obtain ⟨base, hbase, hitems, hover⟩ := overlaid_of_caliperFields hreading hfields
  obtain ⟨_, path', _, parts, hpairs, hparts, -, -, hindent, hlength⟩ := fields_eq_some hbase
  obtain ⟨hnolength, hk⟩ := hover.depth_eq hhas hlength
  have hindented : 1 ≤ k := hk ▸ List.length_pos_of_ne_nil (capture_indent hparts)
  obtain ⟨hnoindent, rfl⟩ := hover.path_eq hhas hindented hk hindent
  have hword : path' ∈ reading.caliper_pairs := by
    rw [hpairs]
    simp
  refine ⟨hindented, word_of_reading hmetrics hword, hitems, ?_, ?_⟩
  · simp only [List.forall_mem_cons]
    exact ⟨hnoindent, hnolength, by simp⟩
  · simp only [List.forall_mem_cons]
    exact ⟨hover.same hhas.numpe_eq (by decide) (by decide),
      hover.same hhas.path_eq (by decide) (by decide), by simp⟩

theorem exists_hasRow (hquotes : Quotes message quoted) (hrow : IsRow quoted numpe k path)
    (h : Recoverable message numpe k path) :
    ∃ new_rec, caliperFields rb message "sap".toList = some new_rec ∧
      HasRow new_rec numpe k path := by
  obtain ⟨reading, hreading, hmetrics⟩ := reading_of_row hquotes
  obtain ⟨base, hbase, hhas⟩ := fields_of_row hrow h.indented h.word hmetrics
  obtain ⟨r, hr⟩ := Option.isSome_iff_exists.mp ((addItems_isSome_iff base _).mpr h.items)
  have hfields : caliperFields rb message "sap".toList =
      some (stamp (dropDashes "job_id".toList r)) := by
    rw [caliperFields, hreading, Option.elim_some, hbase, Option.bind_some, hr]
    rfl
  obtain ⟨base', hbase', -, hover⟩ := overlaid_of_caliperFields hreading hfields
  obtain rfl := Option.some.inj (hbase.symm.trans hbase')
  refine ⟨_, hfields, ?_, ?_, ?_, ?_⟩
  · exact hover.get_of_same (h.same ("numpe".toList, numpe) (by simp)) hhas.numpe_eq
      (by decide) (by decide)
  · exact hover.get_of_same (h.same ("path".toList, path) (by simp)) hhas.path_eq
      (by decide) (by decide)
  · rw [hover.get_of_none (h.free _ (by simp)) (by decide) (by decide), hhas.indent_eq]
  · rw [hover.get_of_none (h.free _ (by simp)) (by decide) (by decide), hhas.length_eq]

/-- Path and depth of a row are found exactly if the row is indented, its path is a word
without backslashes and no item stands in the way. -/
theorem recovered_iff_recoverable (hcaliper : strstr message caliperTrigger)
    (hcode : caliperCode message = some "sap".toList) (htext : IsText rb e message)
    (hquotes : Quotes message quoted) (hrow : IsRow quoted numpe k path) :
    (∃ out, Emits rb e out ∧ Recovered out.2 numpe k path) ↔
      Recoverable message numpe k path := by
  rw [exists_recovered_iff hcaliper hcode htext]
  constructor
  · rintro ⟨new_rec, hfields, hhas⟩
    exact recoverable_of_hasRow hquotes hfields hhas
  · exact exists_hasRow hquotes hrow

end Records

/-- Rows of a report of one run, with `k` blanks in front of the path. -/
def rowText (k : Nat) : Text :=
  "256 ".toList ++ List.replicate k ' ' ++ "main 1 2 3 4 5".toList

def report (k : Nat) : Text :=
  "sap,desc=caliper caliper2=\"".toList ++ rowText k ++ "\" 7000000000".toList

def reportEvent (k : Nat) : Event := (0, [("message".toList, .str (report k))])

theorem isRow_rowText (k : Nat) : IsRow (rowText k) "256".toList k "main".toList := by
  refine ⟨by simp, by decide, [(0, "1".toList), (0, "2".toList), (0, "3".toList),
    (0, "4".toList), (0, "5".toList)], [], rfl, ?_, by simp, ?_⟩
  · simp [IsNumber]
  · simp [rowText, column]

theorem recovered_iff_recoverable_main :
    (∃ out, Emits integerRuntime (reportEvent 2) out ∧
        Recovered out.2 "256".toList 2 "main".toList) ↔
      Recoverable (report 2) "256".toList 2 "main".toList :=
  recovered_iff_recoverable (by decide) (by decide +kernel) ⟨_, rfl, rfl, rfl⟩
    (show Quotes (report 2) (rowText 2) by unfold Quotes; decide +kernel) (isRow_rowText 2)

/-- A path without indentation stops the call. -/
theorem not_recovered_top_level :
    strstr (report 0) caliperTrigger ∧ caliperCode (report 0) = some "sap".toList ∧
      Quotes (report 0) (rowText 0) ∧ IsRow (rowText 0) "256".toList 0 "main".toList ∧
      ¬∃ out, Emits integerRuntime (reportEvent 0) out ∧
        Recovered out.2 "256".toList 0 "main".toList := by
  refine ⟨by decide, by decide +kernel, by unfold Quotes; decide +kernel, isRow_rowText 0, ?_⟩
  rintro ⟨out, hout, -⟩
  have hraise : (process integerRuntime 0 [] [reportEvent 0]).2 = none := by
    rw [← Option.not_isSome_iff_eq_none]
    decide +kernel
  have halone := hout 0 [] [] []
  rw [List.nil_append, hraise] at halone
  exact absurd halone.symm (Option.some_ne_none [out])

end DaapLog.CaliperIndentation

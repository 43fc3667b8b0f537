import DaapLog.TemplateFields

/-!
Writing table descriptions as a template file and reading it back with
`parseTableTemplate`. The counter `vals_found` is a local of the whole parse, so
only one table of a file can have value names.
-/

namespace DaapLog.TemplateRoundTrip

open DaapLog.CStrings
open DaapLog.TableTemplates
open DaapLog.TemplateLines
open DaapLog.TemplateFields

def sectionLines (d : TableDescription) : List Text :=
  "===table===".toList :: d.fields.map Field.line ++ ["===end_table===".toList]

def writeTemplate (ds : List TableDescription) : Text :=
  (ds.flatMap sectionLines).flatMap (· ++ ['\n'])

/-- A value that can be written on one line of a template. -/
structure WritableField (f : Field) : Prop where
  newline : '\n' ∉ f.text
  nul : '\x00' ∉ f.text
  short : f.line.length + 1 < LINE_LEN
  free : FreeOfKeywords f.text
  int : f.IntRange

instance (f : Field) : Decidable (WritableField f) :=
  decidable_of_iff ('\n' ∉ f.text ∧ '\x00' ∉ f.text ∧ f.line.length + 1 < LINE_LEN ∧
      FreeOfKeywords f.text ∧ f.IntRange)
    ⟨fun ⟨hnewline, hnul, hshort, hfree, hint⟩ => ⟨hnewline, hnul, hshort, hfree, hint⟩,
      fun h => ⟨h.newline, h.nul, h.short, h.free, h.int⟩⟩

structure Writable (ds : List TableDescription) : Prop where
  tables : ds.length ≤ MAX_TABLES
  headers : ∀ d ∈ ds, d.headers.length ≤ MAX_HEADERS
  val_names : ∀ d ∈ ds, d.val_names.length ≤ MAX_VALS
  fields : ∀ d ∈ ds, ∀ f ∈ d.fields, WritableField f

/-- The line of the field ends its section. -/
def Closes (f : Field) : Prop := "==end_table===".toList <+: f.text

instance : DecidablePred Closes := fun f =>
  inferInstanceAs (Decidable ("==end_table===".toList <+: f.text))

/-- The line of the field starts a section when it stands outside of one. -/
def Opens (f : Field) : Prop := "==table===".toList <+: f.text

instance : DecidablePred Opens := fun f =>
  inferInstanceAs (Decidable ("==table===".toList <+: f.text))

/-- The fields up to the first one that ends the section. -/
def readFields (fs : List Field) : List Field :=
  fs.takeWhile (¬Closes ·) ++ (fs.dropWhile (¬Closes ·)).take 1

def lostFields (fs : List Field) : List Field := (fs.dropWhile (¬Closes ·)).drop 1

theorem readFields_append_lostFields (fs : List Field) : readFields fs ++ lostFields fs = fs := by
  rw [readFields, lostFields, List.append_assoc, List.take_append_drop,
    List.takeWhile_append_dropWhile]

theorem prefix_trimEol_iff {word text : Text} (hword : word ≠ [])
    (hlast : isEol (word.getLast hword) = false) : word <+: trimEol text ↔ word <+: text := by
  constructor
  · intro h
    exact h.trans (trimEol_isPrefix text)
  · rintro ⟨back, rfl⟩
    rw [trimEol_append back hword hlast]
    exact List.prefix_append _ _

theorem freeOfKeywords_trim {f : Field} (h : FreeOfKeywords f.text) :
    FreeOfKeywords f.trim.text := by
  rw [text_trim]
  have hinfix := (trimEol_isPrefix f.text).isInfix
  exact ⟨fun keyword hkeyword => h.1 keyword (hkeyword.trans hinfix),
    fun htable => h.2.1 (htable.trans hinfix), fun hend => h.2.2 (hend.trans hinfix)⟩

theorem intRange_trim {f : Field} (h : f.IntRange) : f.trim.IntRange := by
  cases f <;> exact h

theorem strstr_line_end_table {f : Field} (h : FreeOfKeywords f.text) :
    strstr f.trim.line "===end_table===" = decide (Closes f) := by
  rw [Field.line, strstr_end_table _ (freeOfKeywords_trim h), text_trim, decide_eq_decide]
  exact prefix_trimEol_iff (by decide) (by decide)

theorem strstr_line_table {f : Field} (h : FreeOfKeywords f.text) :
    strstr f.trim.line "===table===" = decide (Opens f) := by
  rw [Field.line, strstr_table _ (freeOfKeywords_trim h), text_trim, decide_eq_decide]
  exact prefix_trimEol_iff (by decide) (by decide)

theorem templateLine_inside {line trimmed : Text} (htrim : trimEol (line ++ ['\n']) = trimmed)
    (tables : List table_t) (table : table_t) (vals_found : Nat) :
    templateLine ⟨tables ++ [table], true, vals_found⟩ (line ++ ['\n']) =
      ⟨tables ++ [(keywordLine trimmed (table, vals_found)).1],
        !strstr trimmed "===end_table===", (keywordLine trimmed (table, vals_found)).2⟩ := by
  have hline : line ++ ['\n'] ≠ [] := List.append_ne_nil_of_right_ne_nil _ (List.cons_ne_nil _ _)
  rw [templateLine, if_neg hline, htrim]
  simp only [Bool.not_true, Bool.false_eq_true, if_false, List.getLastD_concat,
    List.dropLast_concat]

theorem templateLine_outside {line trimmed : Text} (htrim : trimEol (line ++ ['\n']) = trimmed)
    (tables : List table_t) (vals_found : Nat) :
    templateLine ⟨tables, false, vals_found⟩ (line ++ ['\n']) =
      if strstr trimmed "===table===" then ⟨tables ++ [({} : table_t)], true, vals_found⟩
      else ⟨tables, false, vals_found⟩ := by
  have hline : line ++ ['\n'] ≠ [] := List.append_ne_nil_of_right_ne_nil _ (List.cons_ne_nil _ _)
  rw [templateLine, if_neg hline, htrim]
  rfl

theorem templateLine_field_inside {f : Field} (h : WritableField f) (tables : List table_t)
    (table : table_t) (vals_found : Nat) :
    templateLine ⟨tables ++ [table], true, vals_found⟩ (f.line ++ ['\n']) =
      ⟨tables ++ [(f.trim.apply (table, vals_found)).1], !decide (Closes f),
        (f.trim.apply (table, vals_found)).2⟩ := by
  rw [templateLine_inside (trimEol_line f), strstr_line_end_table h.free,
    keywordLine_line f.trim (freeOfKeywords_trim h.free) (intRange_trim h.int)]

theorem templateLine_field_outside {f : Field} (h : WritableField f) (tables : List table_t)
    (vals_found : Nat) :
    templateLine ⟨tables, false, vals_found⟩ (f.line ++ ['\n']) =
      if Opens f then ⟨tables ++ [({} : table_t)], true, vals_found⟩ else ⟨tables, false, vals_found⟩ := by
  rw [templateLine_outside (trimEol_line f), strstr_line_table h.free]
  simp only [decide_eq_true_eq]

theorem templateLine_table (tables : List table_t) (vals_found : Nat) :
    templateLine ⟨tables, false, vals_found⟩ ("===table===".toList ++ ['\n']) =
      ⟨tables ++ [({} : table_t)], true, vals_found⟩ := by
  have htrim : trimEol ("===table===".toList ++ ['\n']) = "===table===".toList := by decide
  rw [templateLine_outside htrim, if_pos (by decide)]

theorem templateLine_end_table (tables : List table_t) (table : table_t) (vals_found : Nat) :
    templateLine ⟨tables ++ [table], true, vals_found⟩ ("===end_table===".toList ++ ['\n']) =
      ⟨tables ++ [table], false, vals_found⟩ := by
  have htrim : trimEol ("===end_table===".toList ++ ['\n']) = "===end_table===".toList := by
    decide
  have hnone (keyword : Keyword) : strstr "===end_table===" keyword.text = false := by
    cases keyword <;> decide
  have hfound : strstr "===end_table===" "===end_table===" = true := by decide
  rw [templateLine_inside htrim, keywordLine_of_no_keyword hnone, hfound]
  rfl

theorem templateLine_end_table_outside (tables : List table_t) (vals_found : Nat) :
    templateLine ⟨tables, false, vals_found⟩ ("===end_table===".toList ++ ['\n']) =
      ⟨tables, false, vals_found⟩ := by
  have htrim : trimEol ("===end_table===".toList ++ ['\n']) = "===end_table===".toList := by
    decide
  rw [templateLine_outside htrim, if_neg (by decide)]

def readLines (s : TemplateState) (lines : List Text) : TemplateState :=
  lines.foldl (fun s line => templateLine s (line ++ ['\n'])) s

theorem readLines_append (s : TemplateState) (front back : List Text) :
    readLines s (front ++ back) = readLines (readLines s front) back :=
  List.foldl_append

theorem readLines_singleton (s : TemplateState) (line : Text) :
    readLines s [line] = templateLine s (line ++ ['\n']) := rfl

def sectionTable (d : TableDescription) (vals_found : Nat) : table_t × Nat :=
  ((readFields d.fields).map Field.trim).foldl Field.apply ({}, vals_found)

theorem readLines_fields_inside {fs : List Field} (hfs : ∀ f ∈ fs, WritableField f)
    (hopen : ∀ f ∈ fs, ¬Closes f) (tables : List table_t) (s : table_t × Nat) :
    readLines ⟨tables ++ [s.1], true, s.2⟩ (fs.map Field.line) =
      ⟨tables ++ [((fs.map Field.trim).foldl Field.apply s).1], true,
        ((fs.map Field.trim).foldl Field.apply s).2⟩ := by
  induction fs generalizing s with
  | nil => rfl
  | cons f fs ih =>
      rw [List.forall_mem_cons] at hfs hopen
      rw [List.map_cons, readLines, List.foldl_cons, templateLine_field_inside hfs.1,
        decide_eq_false hopen.1]
      exact ih hfs.2 hopen.2 (f.trim.apply s)

theorem readLines_fields_outside {fs : List Field} (hfs : ∀ f ∈ fs, WritableField f)
    (hclosed : ∀ f ∈ fs, ¬Opens f) (tables : List table_t) (vals_found : Nat) :
    readLines ⟨tables, false, vals_found⟩ (fs.map Field.line) = ⟨tables, false, vals_found⟩ := by
  induction fs with
  | nil => rfl
  | cons f fs ih =>
      rw [List.forall_mem_cons] at hfs hclosed
      rw [List.map_cons, readLines, List.foldl_cons, templateLine_field_outside hfs.1,
        if_neg hclosed.1]
      exact ih hfs.2 hclosed.2

/-- The tables that no line can change any more. -/
def finished (s : TemplateState) : List table_t :=
  if s.in_table then s.tables.dropLast else s.tables

theorem templateLine_finished (s : TemplateState) (line : Text) :
    finished s <+: finished (templateLine s line) ∧
      s.tables.length ≤ (templateLine s line).tables.length := by
  rcases s with ⟨tables, in_table, vals_found⟩
  unfold templateLine
  split
  · exact ⟨List.prefix_rfl, le_rfl⟩
  · cases in_table with
    | false =>
        simp only [Bool.not_false, if_true]
        split
        · simp [finished]
        · exact ⟨List.prefix_rfl, le_rfl⟩
    | true =>
        simp only [Bool.not_true, Bool.false_eq_true, if_false, finished, if_true,
          List.length_append, List.length_dropLast, List.length_singleton]
        refine ⟨?_, by omega⟩
        split <;> simp

theorem readLines_finished (s : TemplateState) (lines : List Text) :
    finished s <+: finished (readLines s lines) ∧
      s.tables.length ≤ (readLines s lines).tables.length := by
  induction lines generalizing s with
  | nil => exact ⟨List.prefix_rfl, le_rfl⟩
  | cons line lines ih =>
      have hline := templateLine_finished s (line ++ ['\n'])
      have hlines := ih (templateLine s (line ++ ['\n']))
      exact ⟨hline.1.trans hlines.1, hline.2.trans hlines.2⟩

theorem lt_length_of_opens {fs : List Field} (hfs : ∀ f ∈ fs, WritableField f)
    (hopens : ∃ f ∈ fs, Opens f) (tables : List table_t) (vals_found : Nat) :
    tables.length <
      (readLines ⟨tables, false, vals_found⟩ (fs.map Field.line)).tables.length := by
  induction fs with
  | nil => simp at hopens
  | cons f fs ih =>
      rw [List.forall_mem_cons] at hfs
      rw [List.map_cons, readLines, List.foldl_cons, templateLine_field_outside hfs.1]
      split
      · next hf =>
          have hlength := (readLines_finished ⟨tables ++ [({} : table_t)], true, vals_found⟩
            (fs.map Field.line)).2
          simp only [List.length_append, List.length_singleton] at hlength
          exact hlength
      · next hf =>
          refine ih hfs.2 ?_
          simpa [hf] using hopens

theorem templateLine_end_table_eq (s : TemplateState) :
    ∃ tables vals_found,
      templateLine s ("===end_table===".toList ++ ['\n']) = ⟨tables, false, vals_found⟩ := by
  rcases s with ⟨tables, in_table, vals_found⟩
  cases in_table with
  | false => exact ⟨_, _, templateLine_end_table_outside tables vals_found⟩
  | true =>
      have htrim : trimEol ("===end_table===".toList ++ ['\n']) = "===end_table===".toList := by
        decide
      have hfound : strstr "===end_table===" "===end_table===" = true := by decide
      have hline : "===end_table===".toList ++ ['\n'] ≠ [] := by decide
      rw [templateLine, if_neg hline, htrim]
      simp only [Bool.not_true, Bool.false_eq_true, if_false, hfound]
      exact ⟨_, _, rfl⟩

theorem readLines_sectionLines (d : TableDescription) (tables : List table_t)
    (vals_found : Nat) :
    readLines ⟨tables, false, vals_found⟩ (sectionLines d) =
      templateLine
        (readLines ⟨tables ++ [({} : table_t)], true, vals_found⟩ (d.fields.map Field.line))
        ("===end_table===".toList ++ ['\n']) := by
  rw [sectionLines, readLines_append, ← templateLine_table]
  rfl

theorem readLines_fields_closed {pre rest : List Field} {c : Field}
    (hfs : ∀ f ∈ pre ++ c :: rest, WritableField f) (hopen : ∀ f ∈ pre, ¬Closes f)
    (hc : Closes c) (tables : List table_t) (s : table_t × Nat) :
    readLines ⟨tables ++ [s.1], true, s.2⟩ ((pre ++ c :: rest).map Field.line) =
      readLines
        ⟨tables ++ [(((pre ++ [c]).map Field.trim).foldl Field.apply s).1], false,
          (((pre ++ [c]).map Field.trim).foldl Field.apply s).2⟩
        (rest.map Field.line) := by
  rw [List.forall_mem_append, List.forall_mem_cons] at hfs
  rw [List.map_append, readLines_append, readLines_fields_inside hfs.1 hopen, List.map_cons,
    readLines, List.foldl_cons, templateLine_field_inside hfs.2.1, decide_eq_true hc,
    List.map_append, List.foldl_append]
  rfl

theorem readFields_cases (fs : List Field) :
    ((∀ f ∈ fs, ¬Closes f) ∧ readFields fs = fs ∧ lostFields fs = []) ∨
      ∃ pre c, fs = pre ++ c :: lostFields fs ∧ (∀ f ∈ pre, ¬Closes f) ∧ Closes c ∧
        readFields fs = pre ++ [c] := by
  have hsplit := List.takeWhile_append_dropWhile (p := fun f => decide ¬Closes f) (l := fs)
  have hopen : ∀ f ∈ fs.takeWhile fun f => decide ¬Closes f, ¬Closes f := fun f hf =>
    of_decide_eq_true (List.mem_takeWhile_imp (p := fun f => decide ¬Closes f) hf)
  unfold readFields lostFields
  rcases hrest : fs.dropWhile fun f => decide ¬Closes f with _ | ⟨c, rest⟩
  · rw [hrest, List.append_nil] at hsplit
    rw [hsplit] at hopen
    exact Or.inl ⟨hopen, by rw [hsplit, List.take_nil, List.append_nil], rfl⟩
  · have hc := @List.head_dropWhile_not _ (fun f => decide ¬Closes f) fs (by rw [hrest]; exact List.cons_ne_nil _ _)
    simp only [hrest, List.head_cons, decide_eq_false_iff_not, not_not] at hc
    rw [hrest] at hsplit
    exact Or.inr ⟨_, c, hsplit.symm, hopen, hc, rfl⟩

/-- A section adds its table, and further ones exactly if a field behind the end of
the section opens them. -/
theorem readLines_section {d : TableDescription} (hd : ∀ f ∈ d.fields, WritableField f)
    (tables : List table_t) (vals_found : Nat) :
    ∃ more vals_found',
      readLines ⟨tables, false, vals_found⟩ (sectionLines d) =
        ⟨tables ++ [(sectionTable d vals_found).1] ++ more, false, vals_found'⟩ ∧
      ((∃ f ∈ lostFields d.fields, Opens f) → more ≠ []) ∧
      ((∀ f ∈ lostFields d.fields, ¬Opens f) →
        more = [] ∧ vals_found' = (sectionTable d vals_found).2) := by
  rw [readLines_sectionLines, sectionTable]
  rcases readFields_cases d.fields with ⟨hopen, hread, hlost⟩ | ⟨pre, c, hfields, hopen, hc, hread⟩
  · rw [hread, hlost, readLines_fields_inside hd hopen tables ({}, vals_found),
      templateLine_end_table]
    exact ⟨[], _, by rw [List.append_nil], by simp, fun _ => ⟨rfl, rfl⟩⟩
  · rw [hread]
    generalize lostFields d.fields = rest at hfields ⊢
    rw [hfields] at hd ⊢
    rw [readLines_fields_closed hd hopen hc tables ({}, vals_found)]
    generalize ((pre ++ [c]).map Field.trim).foldl Field.apply ({}, vals_found) = t
    have hrest : ∀ f ∈ rest, WritableField f := fun f hf => hd f (by simp [hf])
    by_cases hopens : ∃ f ∈ rest, Opens f
    · have hgrow := lt_length_of_opens hrest hopens (tables ++ [t.1]) t.2
      have hkept := (readLines_finished ⟨tables ++ [t.1], false, t.2⟩
        (rest.map Field.line ++ ["===end_table===".toList])).1
      have hlength := (templateLine_finished
        (readLines ⟨tables ++ [t.1], false, t.2⟩ (rest.map Field.line))
        ("===end_table===".toList ++ ['\n'])).2
      rw [readLines_append, readLines_singleton] at hkept
      obtain ⟨tables', vals_found', hend⟩ := templateLine_end_table_eq
        (readLines ⟨tables ++ [t.1], false, t.2⟩ (rest.map Field.line))
      rw [hend] at hlength ⊢
      rw [hend] at hkept
      obtain ⟨more, rfl⟩ : tables ++ [t.1] <+: tables' := hkept
      refine ⟨more, vals_found', rfl, fun _ hnil => ?_, fun hnone => ?_⟩
      · subst hnil
        simp only [List.append_nil] at hlength
        omega
      · obtain ⟨f, hf, hof⟩ := hopens
        exact absurd hof (hnone f hf)
    · have hclosed : ∀ f ∈ rest, ¬Opens f := fun f hf hof => hopens ⟨f, hf, hof⟩
      rw [readLines_fields_outside hrest hclosed, templateLine_end_table_outside]
      exact ⟨[], _, by rw [List.append_nil], fun h => absurd h hopens, fun _ => ⟨rfl, rfl⟩⟩

theorem length_le_readLines_sections {ds : List TableDescription}
    (hds : ∀ d ∈ ds, ∀ f ∈ d.fields, WritableField f) (tables : List table_t)
    (vals_found : Nat) :
    ∃ more vals_found', readLines ⟨tables, false, vals_found⟩ (ds.flatMap sectionLines) =
      ⟨tables ++ more, false, vals_found'⟩ ∧ ds.length ≤ more.length := by
  induction ds generalizing tables vals_found with
  | nil => exact ⟨[], vals_found, by rw [List.append_nil]; rfl, le_rfl⟩
  | cons d ds ih =>
      rw [List.forall_mem_cons] at hds
      obtain ⟨more, vals_found', hsection, -, -⟩ := readLines_section hds.1 tables vals_found
      obtain ⟨rest, vals_found'', hrest, hlength⟩ := ih hds.2
        (tables ++ [(sectionTable d vals_found).1] ++ more) vals_found'
      refine ⟨[(sectionTable d vals_found).1] ++ more ++ rest, vals_found'', ?_, ?_⟩
      · rw [List.flatMap_cons, readLines_append, hsection, hrest]
        simp only [List.append_assoc]
      · simp only [List.length_append, List.length_cons, List.length_nil]
        omega

/-- No value of the section is shortened and no field that says something is lost. -/
structure Intact (d : TableDescription) : Prop where
  read : ∀ f ∈ readFields d.fields, f.text.getLast? ≠ some '\r'
  lost : ∀ f ∈ lostFields d.fields, Blank f

def ReadsName (d : TableDescription) : Prop := texts .val_name (readFields d.fields) ≠ []

def Nameless (d : TableDescription) : Prop := ∀ name ∈ d.val_names, name = []

theorem trim_eq_iff {f : Field} (hf : WritableField f) :
    f.trim = f ↔ f.text.getLast? ≠ some '\r' := by
  have htext : f.trim = f ↔ trimEol f.text = f.text := by
    rw [← text_trim]
    constructor
    · intro h
      rw [h]
    · intro h
      cases f <;> simp_all [Field.trim, Field.text]
  rw [htext, trimEol, List.rdropWhile_eq_self_iff]
  constructor
  · intro h hlast
    have hne : f.text ≠ [] := by
      rintro hnil
      simp [hnil] at hlast
    rw [List.getLast?_eq_getLast_of_ne_nil hne, Option.some.injEq] at hlast
    exact h hne (by rw [hlast]; rfl)
  · intro h hne heol
    simp only [isEol, Bool.or_eq_true, beq_iff_eq] at heol
    rcases heol with hnewline | hreturn
    · exact hf.newline (hnewline ▸ List.getLast_mem hne)
    · exact h (by rw [List.getLast?_eq_getLast_of_ne_nil hne, hreturn])

theorem not_blank_of_opens {f : Field} (h : Opens f) : ¬Blank f := by
  have hmem : '=' ∈ f.text := h.subset (by decide)
  have hdecimal (x : Int) : '=' ∉ decimal x := by
    intro heq
    rcases mem_decimal heq with hdigit | hdash
    · exact absurd hdigit (by decide)
    · exact absurd hdash (by decide)
  cases f with
  | header value => exact id
  | cols value => exact absurd hmem (hdecimal value)
  | num_vals value => exact absurd hmem (hdecimal value)
  | _ => exact List.ne_nil_of_mem hmem

theorem sectionTable_eq_iff {d : TableDescription} (hd : ∀ f ∈ d.fields, WritableField f)
    (hheaders : d.headers.length ≤ MAX_HEADERS) (hnames : d.val_names.length ≤ MAX_VALS)
    {vals_found : Nat} (hfound : vals_found ≤ MAX_VALS) :
    (sectionTable d vals_found).1 = d.table ↔ Intact d ∧ (vals_found = 0 ∨ Nameless d) := by
  have hsplit := readFields_append_lostFields d.fields
  rw [sectionTable, foldl_apply_eq_table_iff hsplit hheaders hnames hfound, ← and_assoc]
  refine and_congr_left' ?_
  have hread : (∀ f ∈ readFields d.fields, f.trim = f) ↔
      ∀ f ∈ readFields d.fields, f.text.getLast? ≠ some '\r' := by
    refine forall₂_congr fun f hf => trim_eq_iff (hd f ?_)
    rw [← hsplit]
    exact List.mem_append_left _ hf
  rw [hread]
  exact ⟨fun h => ⟨h.1, h.2⟩, fun h => ⟨h.read, h.lost⟩⟩

theorem sectionTable_vals_found (d : TableDescription) {vals_found : Nat}
    (hfound : vals_found ≤ MAX_VALS) :
    (sectionTable d vals_found).2 ≤ MAX_VALS ∧
      ((sectionTable d vals_found).2 = 0 ↔ vals_found = 0 ∧ ¬ReadsName d) := by
  rw [sectionTable, (foldl_apply_val_names_new _ hfound).2, texts_map_trim, List.length_map,
    ReadsName, not_not, ← List.length_eq_zero_iff]
  simp only [MAX_VALS] at *
  omega

theorem readLines_sections_first_iff {ds : List TableDescription}
    (hfields : ∀ d ∈ ds, ∀ f ∈ d.fields, WritableField f) (tables : List table_t)
    (first table : table_t) (vals_found : Nat) :
    (readLines ⟨tables ++ [first], false, vals_found⟩ (ds.flatMap sectionLines)).tables =
        tables ++ table :: ds.map TableDescription.table ↔
      first = table ∧
        (readLines ⟨tables ++ [table], false, vals_found⟩ (ds.flatMap sectionLines)).tables =
          tables ++ [table] ++ ds.map TableDescription.table := by
  rw [List.append_cons tables table]
  refine ⟨fun h => ?_, fun ⟨hsame, h⟩ => by rwa [hsame]⟩
  obtain ⟨rest, vals_found', hrest, -⟩ :=
    length_le_readLines_sections hfields (tables ++ [first]) vals_found
  have hsame : first = table := by
    rw [hrest] at h
    have hfront := (List.append_inj h (by simp)).1
    exact List.singleton_injective (List.append_cancel_left hfront)
  rw [hsame] at h
  exact ⟨hsame, h⟩

theorem nameless_after_iff {d : TableDescription} {ds : List TableDescription}
    {vals_found : Nat} :
    ((Intact d ∧ (vals_found = 0 ∨ Nameless d)) ∧ (∀ e ∈ ds, Intact e) ∧
        ((vals_found = 0 ∧ ¬ ReadsName d) ∨ ∀ e ∈ ds, Nameless e) ∧
        ds.Pairwise fun a b => ReadsName a → Nameless b) ↔
      (Intact d ∧ ∀ e ∈ ds, Intact e) ∧ (vals_found = 0 ∨ Nameless d ∧ ∀ e ∈ ds, Nameless e) ∧
        (∀ e ∈ ds, ReadsName d → Nameless e) ∧
        ds.Pairwise fun a b => ReadsName a → Nameless b := by
  have hlater : (∀ e ∈ ds, ReadsName d → Nameless e) ↔
      (ReadsName d → ∀ e ∈ ds, Nameless e) :=
    ⟨fun h hread e he => h e he hread, fun h e he hread => h hread e he⟩
  rw [hlater]
  constructor
  · rintro ⟨⟨hintact, hv⟩, hds, hall | hall, hpair⟩
    · exact ⟨⟨hintact, hds⟩, Or.inl hall.1, fun hread => absurd hread hall.2, hpair⟩
    · exact ⟨⟨hintact, hds⟩, hv.imp_right fun hd => ⟨hd, hall⟩, fun _ => hall, hpair⟩
  · rintro ⟨⟨hintact, hds⟩, hv, hread, hpair⟩
    refine ⟨⟨hintact, hv.imp_right And.left⟩, hds, ?_, hpair⟩
    rcases hv with hv | ⟨-, hall⟩
    · by_cases h : ReadsName d
      · exact Or.inr (hread h)
      · exact Or.inl ⟨hv, h⟩
    · exact Or.inr hall

theorem readLines_sections_iff {ds : List TableDescription}
    (hheaders : ∀ d ∈ ds, d.headers.length ≤ MAX_HEADERS)
    (hnames : ∀ d ∈ ds, d.val_names.length ≤ MAX_VALS)
    (hfields : ∀ d ∈ ds, ∀ f ∈ d.fields, WritableField f)
    (tables : List table_t) {vals_found : Nat} (hfound : vals_found ≤ MAX_VALS) :
    (readLines ⟨tables, false, vals_found⟩ (ds.flatMap sectionLines)).tables =
        tables ++ ds.map TableDescription.table ↔
      (∀ d ∈ ds, Intact d) ∧ (vals_found = 0 ∨ ∀ d ∈ ds, Nameless d) ∧
        ds.Pairwise fun d e => ReadsName d → Nameless e := by
  induction ds generalizing tables vals_found with
  | nil => simp [readLines]
  | cons d ds ih =>
      rw [List.forall_mem_cons] at hheaders hnames hfields
      obtain ⟨more, vals_found', hsection, hopens, hclosed⟩ :=
        readLines_section hfields.1 tables vals_found
      have htable := sectionTable_eq_iff hfields.1 hheaders.1 hnames.1 hfound
      obtain ⟨hle, hzero⟩ := sectionTable_vals_found d hfound
      rw [List.flatMap_cons, readLines_append, hsection, List.forall_mem_cons,
        List.forall_mem_cons, List.pairwise_cons, List.map_cons]
      by_cases hlost : ∃ f ∈ lostFields d.fields, Opens f
      · constructor
        · intro h
          obtain ⟨rest, vals_found'', hrest, hlength⟩ := length_le_readLines_sections hfields.2
            (tables ++ [(sectionTable d vals_found).1] ++ more) vals_found'
          rw [hrest] at h
          have hmore := List.length_pos_of_ne_nil (hopens hlost)
          have hsizes := congrArg List.length h
          simp only [List.length_append, List.length_cons, List.length_map, List.length_nil]
            at hsizes
          omega
        · rintro ⟨⟨hintact, -⟩, -⟩
          obtain ⟨f, hf, hof⟩ := hlost
          exact absurd (hintact.lost f hf) (not_blank_of_opens hof)
      · obtain ⟨rfl, rfl⟩ := hclosed fun f hf hof => hlost ⟨f, hf, hof⟩
        have hih := ih hheaders.2 hnames.2 hfields.2 (tables ++ [d.table]) hle
        rw [hzero] at hih
        have hfirst := readLines_sections_first_iff hfields.2 tables
          (sectionTable d vals_found).1 d.table (sectionTable d vals_found).2
        rw [List.append_nil, hfirst, htable, hih]
        exact nameless_after_iff

theorem readable_sectionLines {d : TableDescription} (hd : ∀ f ∈ d.fields, WritableField f) :
    ∀ line ∈ sectionLines d, '\n' ∉ line ∧ '\x00' ∉ line ∧ line.length + 1 < LINE_LEN := by
  have hkeyword (keyword : Keyword) : '\n' ∉ keyword.text ∧ '\x00' ∉ keyword.text := by
    cases keyword <;> decide
  intro line hline
  simp only [sectionLines, List.cons_append, List.mem_cons, List.mem_append, List.mem_map,
    List.not_mem_nil, or_false] at hline
  rcases hline with rfl | ⟨f, hf, rfl⟩ | rfl
  · decide
  · refine ⟨?_, ?_, (hd f hf).short⟩ <;> rw [Field.line, List.mem_append, not_or]
    · exact ⟨(hkeyword f.keyword).1, (hd f hf).newline⟩
    · exact ⟨(hkeyword f.keyword).2, (hd f hf).nul⟩
  · decide

theorem parseTableTemplate_writeTemplate {ds : List TableDescription}
    (hfields : ∀ d ∈ ds, ∀ f ∈ d.fields, WritableField f) :
    parseTableTemplate (some (writeTemplate ds)) =
      (0, (readLines {} (ds.flatMap sectionLines)).tables) := by
  have hlines : ∀ line ∈ ds.flatMap sectionLines,
      '\n' ∉ line ∧ '\x00' ∉ line ∧ line.length + 1 < LINE_LEN := by
    intro line hline
    obtain ⟨d, hd, hline⟩ := List.mem_flatMap.mp hline
    exact readable_sectionLines (hfields d hd) line hline
  simp only [parseTableTemplate, writeTemplate, fgetsLines_flatMap hlines, List.foldl_map,
    readLines]

/-- A file of table sections is read back exactly when every section is intact and no
section with value names stands behind one whose value names were read. -/
theorem parseTableTemplate_writeTemplate_iff {ds : List TableDescription} (hds : Writable ds) :
    parseTableTemplate (some (writeTemplate ds)) = (0, ds.map TableDescription.table) ↔
      (∀ d ∈ ds, Intact d) ∧ ds.Pairwise fun d e => ReadsName d → Nameless e := by
  have hsections := readLines_sections_iff hds.headers hds.val_names hds.fields []
    (Nat.zero_le MAX_VALS)
  rw [parseTableTemplate_writeTemplate hds.fields, Prod.mk.injEq]
  simpa using hsections

def stepTable : TableDescription :=
  ⟨"|", ["Operation | Pct Time", "----------+---------"], 2, " ", 3, ["name_skip", "pct", "time"]⟩

def gridTable : TableDescription := ⟨":", ["Grid"], 1, ",", 0, []⟩

def cellTable : TableDescription := ⟨":", ["Cells"], 1, ",", 1, ["cells"]⟩

theorem parseTableTemplate_writeTemplate_step_grid :
    parseTableTemplate (some (writeTemplate [stepTable, gridTable])) =
      (0, [stepTable.table, gridTable.table]) := by
  refine (@parseTableTemplate_writeTemplate_iff [stepTable, gridTable]
    ⟨by decide, by decide, by decide, by decide +kernel⟩).mpr ⟨?_, ?_⟩
  · rw [List.forall_mem_cons, List.forall_mem_singleton]
    exact ⟨⟨by decide +kernel, by decide +kernel⟩, ⟨by decide +kernel, by decide +kernel⟩⟩
  · rw [List.pairwise_pair]
    exact fun _ _ hname => absurd hname List.not_mem_nil

/-- The value name of the second table goes to the slot behind that of the first. -/
theorem parseTableTemplate_writeTemplate_cells :
    Writable [cellTable, cellTable] ∧
      parseTableTemplate (some (writeTemplate [cellTable, cellTable])) ≠
        (0, [cellTable.table, cellTable.table]) :=
  ⟨⟨by decide, by decide, by decide, by decide +kernel⟩, by decide +kernel⟩

end DaapLog.TemplateRoundTrip

import DaapLog.LongLines
import DaapLog.TemplateFields

/-!
A section of any `key=value` lines, and the table it is meant to give. Keywords are
searched for anywhere in a string, values are cut off at fixed offsets, and texts are
copied over older ones.
-/

namespace DaapLog.ForeignKeywords

open DaapLog.ByteBuffers
open DaapLog.CStrings
open DaapLog.FileLines
open DaapLog.LongLines
open DaapLog.TableTemplates
open DaapLog.TemplateBounds
open DaapLog.TemplateFields
open DaapLog.TemplateLines

/-- A line of a section: a keyword and a value on one line. -/
structure SectionLine where
  keyword : Keyword
  value : Text
  oneLine : '\n' ∉ value

def SectionLine.text (l : SectionLine) : Text := l.keyword.text ++ l.value

/-- A template with one section. -/
def sectionFile (lines : List SectionLine) : Text :=
  ("===table===".toList :: (lines.map SectionLine.text ++ ["===end_table===".toList])).flatMap
    (· ++ ['\n'])

/-- The values of the lines with a keyword. -/
def written (keyword : Keyword) (lines : List SectionLine) : List Text :=
  (lines.filter (·.keyword = keyword)).map SectionLine.value

/-- The table that the lines describe. -/
def reference (lines : List SectionLine) : table_t :=
  { sep := (written .table_sep lines).getLastD []
    val_sep := (written .val_sep lines).getLastD []
    num_headers := min MAX_HEADERS (written .header lines).length
    header_names := slots MAX_HEADERS (written .header lines)
    cols := atoi ((written .cols lines).getLastD [])
    val_names := slots MAX_VALS (written .val_name lines)
    num_vals := atoi ((written .num_vals lines).getLastD []) }

/-- The strings that `fgets` delivers for a line, without newline characters at the end. -/
def SectionLine.strings (l : SectionLine) : List Text :=
  ((fgetsFrom LINE_LEN (LINE_LEN - 1) [] (l.text ++ ['\n'])).map stringIn).map trimEol

/-- All strings of a section, its last line included. -/
def sectionStrings (lines : List SectionLine) : List Text :=
  lines.flatMap SectionLine.strings ++ ["===end_table===".toList]

/-- The strings up to the first one that ends the section, and the others. -/
def untilEnd : List Text → List Text × List Text
  | [] => ([], [])
  | text :: rest =>
      if strstr text "===end_table===" then ([text], rest)
      else
        let r := untilEnd rest
        (text :: r.1, r.2)

/-- The strings with a keyword anywhere in them, from the place on where its value should
start. -/
def found (keyword : Keyword) (texts : List Text) : List Text :=
  (texts.filter fun text => strstr text keyword.text).map (·.drop keyword.text.length)

/-- What is found for a keyword in the strings that are read says the same as the lines
with it, and no string behind them opens another section. -/
structure FoundAsWritten (lines : List SectionLine) : Prop where
  sep : (found .table_sep (untilEnd (sectionStrings lines)).1).foldl copyOver [] =
    (written .table_sep lines).getLastD []
  val_sep : (found .val_sep (untilEnd (sectionStrings lines)).1).foldl copyOver [] =
    (written .val_sep lines).getLastD []
  headers : (found .header (untilEnd (sectionStrings lines)).1).take MAX_HEADERS =
    (written .header lines).take MAX_HEADERS
  cols : atoi ((found .cols (untilEnd (sectionStrings lines)).1).getLastD []) =
    atoi ((written .cols lines).getLastD [])
  val_names : ∀ j < MAX_VALS,
    (found .val_name (untilEnd (sectionStrings lines)).1).getD j [] =
      (written .val_name lines).getD j []
  num_vals : atoi ((found .num_vals (untilEnd (sectionStrings lines)).1).getLastD []) =
    atoi ((written .num_vals lines).getLastD [])
  closed : ∀ text ∈ (untilEnd (sectionStrings lines)).2, ¬strstr text "===table==="

theorem found_cons (keyword : Keyword) (text : Text) (texts : List Text) :
    found keyword (text :: texts) =
      if strstr text keyword.text then text.drop keyword.text.length :: found keyword texts
      else found keyword texts := by
  rw [found, List.filter_cons]
  split <;> rfl

section Components

variable {τ : Type}

theorem foldl_keywordLine (component : table_t × Nat → τ) (f : τ → Text → τ) (keyword : Keyword)
    (h : ∀ s text, component (keywordLine text s) =
      if strstr text keyword.text then f (component s) (text.drop keyword.text.length)
      else component s)
    (texts : List Text) (s : table_t × Nat) :
    component (texts.foldl (fun s text => keywordLine text s) s) =
      (found keyword texts).foldl f (component s) := by
  induction texts generalizing s with
  | nil => rfl
  | cons text texts ih =>
      rw [List.foldl_cons, ih, h, found_cons]
      split
      · rw [List.foldl_cons]
      · rfl

theorem copyValue_eq (tkey_len : Nat) (old text : Text) :
    copyValue tkey_len old text = copyOver old (text.drop tkey_len) := by
  rw [copyValue, copyOver, List.length_drop]

theorem foldl_sep (texts : List Text) (s : table_t × Nat) :
    (texts.foldl (fun s text => keywordLine text s) s).1.sep =
      (found .table_sep texts).foldl copyOver s.1.sep := by
  refine foldl_keywordLine (fun s => s.1.sep) copyOver .table_sep (fun s text => ?_) texts s
  rcases s with ⟨table, vals_found⟩
  simp only [keywordLine, apply_ite Prod.fst, apply_ite Prod.snd, apply_ite table_t.sep, ite_self,
    copyValue_eq]
  rfl

theorem foldl_val_sep (texts : List Text) (s : table_t × Nat) :
    (texts.foldl (fun s text => keywordLine text s) s).1.val_sep =
      (found .val_sep texts).foldl copyOver s.1.val_sep := by
  refine foldl_keywordLine (fun s => s.1.val_sep) copyOver .val_sep (fun s text => ?_) texts s
  rcases s with ⟨table, vals_found⟩
  simp only [keywordLine, apply_ite Prod.fst, apply_ite Prod.snd, apply_ite table_t.val_sep,
    ite_self, copyValue_eq]
  rfl

theorem foldl_cols (texts : List Text) (s : table_t × Nat) :
    (texts.foldl (fun s text => keywordLine text s) s).1.cols =
      (found .cols texts).foldl (fun _ text => atoi text) s.1.cols := by
  refine foldl_keywordLine (fun s => s.1.cols) _ .cols (fun s text => ?_) texts s
  rcases s with ⟨table, vals_found⟩
  simp only [keywordLine, apply_ite Prod.fst, apply_ite Prod.snd, apply_ite table_t.cols, ite_self]
  rfl

theorem foldl_num_vals (texts : List Text) (s : table_t × Nat) :
    (texts.foldl (fun s text => keywordLine text s) s).1.num_vals =
      (found .num_vals texts).foldl (fun _ text => atoi text) s.1.num_vals := by
  refine foldl_keywordLine (fun s => s.1.num_vals) _ .num_vals (fun s text => ?_) texts s
  rcases s with ⟨table, vals_found⟩
  simp only [keywordLine, apply_ite Prod.fst, apply_ite Prod.snd, apply_ite table_t.num_vals,
    ite_self]
  rfl

theorem foldl_headers (texts : List Text) (s : table_t × Nat) :
    ((texts.foldl (fun s text => keywordLine text s) s).1.header_names,
        (texts.foldl (fun s text => keywordLine text s) s).1.num_headers) =
      (found .header texts).foldl (fillSlot MAX_HEADERS) (s.1.header_names, s.1.num_headers) := by
  refine foldl_keywordLine (fun s => (s.1.header_names, s.1.num_headers)) _ .header
    (fun s text => ?_) texts s
  rcases s with ⟨table, vals_found⟩
  have hcopy (old : Text) : copyValue 7 old text =
      strncpy (text.drop Keyword.header.text.length).length old
        (text.drop Keyword.header.text.length) := copyValue_eq 7 old text
  simp only [keywordLine, apply_ite Prod.fst, apply_ite Prod.snd, apply_ite table_t.header_names,
    apply_ite table_t.num_headers, ite_self, hcopy]
  by_cases hfound : strstr text Keyword.header.text
  · have hheader : strstr text "header=" = true := hfound
    rw [if_pos hfound, fillSlot]
    simp only [hheader, true_and]
    split <;> rfl
  · have hheader : ¬(strstr text "header=" = true ∧ table.num_headers < MAX_HEADERS) :=
      fun h => hfound h.1
    rw [if_neg hfound, if_neg hheader, if_neg hheader]

theorem foldl_val_names (texts : List Text) (s : table_t × Nat) :
    ((texts.foldl (fun s text => keywordLine text s) s).1.val_names,
        (texts.foldl (fun s text => keywordLine text s) s).2) =
      (found .val_name texts).foldl (fillSlot MAX_VALS) (s.1.val_names, s.2) := by
  refine foldl_keywordLine (fun s => (s.1.val_names, s.2)) _ .val_name (fun s text => ?_) texts s
  rcases s with ⟨table, vals_found⟩
  have hcopy (old : Text) : copyValue 9 old text =
      strncpy (text.drop Keyword.val_name.text.length).length old
        (text.drop Keyword.val_name.text.length) := copyValue_eq 9 old text
  simp only [keywordLine, apply_ite Prod.fst, apply_ite Prod.snd, apply_ite table_t.val_names,
    ite_self, hcopy]
  by_cases hfound : strstr text Keyword.val_name.text
  · have hname : strstr text "val_name=" = true := hfound
    rw [if_pos hfound, fillSlot]
    simp only [hname, true_and]
    split <;> rfl
  · have hname : ¬(strstr text "val_name=" = true ∧ vals_found < MAX_VALS) :=
      fun h => hfound h.1
    rw [if_neg hfound, if_neg hname, if_neg hname]

theorem foldl_last_number (texts : List Text) (x : Int) :
    texts.foldl (fun _ text => atoi text) x = (texts.getLast?.map atoi).getD x := by
  induction texts using List.reverseRecOn with
  | nil => rfl
  | append_singleton texts text ih => rw [List.foldl_append, List.getLast?_concat]; rfl

theorem foldl_number (texts : List Text) :
    texts.foldl (fun _ text => atoi text) 0 = atoi (texts.getLastD []) := by
  rw [foldl_last_number, List.getLastD_eq_getLast?]
  cases texts.getLast? with
  | none => rfl
  | some text => rfl

theorem table_eq_iff {a b : table_t} :
    a = b ↔ a.sep = b.sep ∧ a.val_sep = b.val_sep ∧
      (a.header_names, a.num_headers) = (b.header_names, b.num_headers) ∧ a.cols = b.cols ∧
      a.val_names = b.val_names ∧ a.num_vals = b.num_vals := by
  constructor
  · rintro rfl
    exact ⟨rfl, rfl, rfl, rfl, rfl, rfl⟩
  · rintro ⟨hsep, hval_sep, hheaders, hcols, hnames, hnum_vals⟩
    obtain ⟨hheader_names, hnum_headers⟩ := Prod.mk.inj hheaders
    rcases a with ⟨_, _, _, _, _, _, _⟩
    dsimp only at *
    subst hsep hval_sep hheader_names hnum_headers hcols hnames hnum_vals
    rfl

/-- An array of slots and the number of slots in use tell the names as far as there is
room for them. -/
theorem slots_take_iff {max : Nat} {names others : List Text} :
    (slots max names, min max names.length) = (slots max others, min max others.length) ↔
      names.take max = others.take max := by
  rw [Prod.mk.injEq, slots_eq_iff]
  constructor
  · rintro ⟨hslots, hlength⟩
    refine List.ext_getElem (by simpa only [List.length_take] using hlength) ?_
    intro j hleft hright
    have hj : j < max := lt_of_lt_of_le hleft (List.length_take_le max names)
    have hget := hslots j hj
    rw [List.length_take] at hleft hright
    rw [List.getElem_take, List.getElem_take, ← List.getD_eq_getElem _ [] (by omega),
      ← List.getD_eq_getElem _ [] (by omega), hget]
  · intro h
    have hlength := congrArg List.length h
    rw [List.length_take, List.length_take] at hlength
    refine ⟨fun j hj => ?_, hlength⟩
    have hget : (names.take max)[j]? = (others.take max)[j]? := by rw [h]
    rw [List.getElem?_take_of_lt hj, List.getElem?_take_of_lt hj] at hget
    rw [List.getD_eq_getElem?_getD, List.getD_eq_getElem?_getD, hget]

end Components

/-- The table that strings leave is the one that the lines describe exactly if what is
found in the strings says the same. -/
theorem foldl_eq_reference_iff (texts : List Text) (lines : List SectionLine) :
    (texts.foldl (fun s text => keywordLine text s) ({}, 0)).1 = reference lines ↔
      (found .table_sep texts).foldl copyOver [] = (written .table_sep lines).getLastD [] ∧
      (found .val_sep texts).foldl copyOver [] = (written .val_sep lines).getLastD [] ∧
      (found .header texts).take MAX_HEADERS = (written .header lines).take MAX_HEADERS ∧
      atoi ((found .cols texts).getLastD []) = atoi ((written .cols lines).getLastD []) ∧
      (∀ j < MAX_VALS,
        (found .val_name texts).getD j [] = (written .val_name lines).getD j []) ∧
      atoi ((found .num_vals texts).getLastD []) =
        atoi ((written .num_vals lines).getLastD []) := by
  have hheaders :
      ((texts.foldl (fun s text => keywordLine text s) ({}, 0)).1.header_names,
        (texts.foldl (fun s text => keywordLine text s) ({}, 0)).1.num_headers) =
      (slots MAX_HEADERS (List.replicate 0 [] ++ found .header texts),
        min MAX_HEADERS (0 + (found .header texts).length)) :=
    (foldl_headers texts ({}, 0)).trans (foldl_fillSlot (Nat.zero_le _) _)
  have hnames : (texts.foldl (fun s text => keywordLine text s) ({}, 0)).1.val_names =
      slots MAX_VALS (List.replicate 0 [] ++ found .val_name texts) :=
    (Prod.mk.inj ((foldl_val_names texts ({}, 0)).trans (foldl_fillSlot (Nat.zero_le _) _))).1
  have hcols : (texts.foldl (fun s text => keywordLine text s) ({}, 0)).1.cols =
      atoi ((found .cols texts).getLastD []) :=
    (foldl_cols texts ({}, 0)).trans (foldl_number _)
  have hnum_vals : (texts.foldl (fun s text => keywordLine text s) ({}, 0)).1.num_vals =
      atoi ((found .num_vals texts).getLastD []) :=
    (foldl_num_vals texts ({}, 0)).trans (foldl_number _)
  rw [Nat.zero_add] at hheaders
  rw [table_eq_iff, foldl_sep, foldl_val_sep, hheaders, hcols, hnames, hnum_vals]
  exact and_congr Iff.rfl (and_congr Iff.rfl (and_congr slots_take_iff
    (and_congr Iff.rfl (and_congr slots_eq_iff Iff.rfl))))

section Sections

variable {s : TemplateState} {table : table_t} {vals_found : Nat}

theorem templateLine_section (table : table_t) (vals_found : Nat) {line : Text}
    (htrim : trimEol line = line) :
    templateLine ⟨[table], true, vals_found⟩ line =
      ⟨[(keywordLine line (table, vals_found)).1], !strstr line "===end_table===",
        (keywordLine line (table, vals_found)).2⟩ := by
  rcases eq_or_ne line [] with rfl | hne
  · rw [keywordLine_of_no_keyword (fun keyword => by cases keyword <;> rfl)]
    rfl
  · have hinside : ¬(!true) = true := Bool.false_ne_true
    rw [templateLine, if_neg hne]
    dsimp only
    rw [if_neg hinside, htrim]
    rfl

theorem templateLine_blank (hin : s.in_table = true) (hne : s.tables ≠ []) {line : Text}
    (hline : trimEol line = []) : templateLine s line = s := by
  have hinside : ¬(!true) = true := Bool.false_ne_true
  rw [templateLine]
  split
  · rfl
  · rw [hin]
    dsimp only
    rw [if_neg hinside, hline,
      keywordLine_of_no_keyword (fun keyword => by cases keyword <;> rfl),
      List.getLastD_eq_getLast?, List.getLast?_eq_some_getLast hne, Option.getD_some,
      List.dropLast_append_getLast hne]
    rcases s with ⟨tables, in_table, vals_found⟩
    dsimp only at hin
    rw [hin]
    rfl

theorem length_le_templateLine (hs : s.in_table = true → s.tables ≠ []) (line : Text) :
    s.tables.length ≤ (templateLine s line).tables.length := by
  cases hin : s.in_table with
  | true => exact (@templateLine_inside s line hin (hs hin)).1.ge
  | false =>
      by_cases hopens : strstr (trimEol line) "===table==="
      · rw [(templateLine_opens hin hopens).1, List.length_append]
        exact Nat.le_add_right _ _
      · rw [(templateLine_outside hin hopens).1]

theorem tables_ne_nil (hs : s.in_table = true → s.tables ≠ []) (line : Text) :
    (templateLine s line).in_table = true → (templateLine s line).tables ≠ [] := by
  cases hin : s.in_table with
  | true =>
      intro _
      have hlength := (@templateLine_inside s line hin (hs hin)).1
      apply List.ne_nil_of_length_pos
      rw [hlength]
      exact List.length_pos_of_ne_nil (hs hin)
  | false =>
      by_cases hopens : strstr (trimEol line) "===table==="
      · rw [(templateLine_opens hin hopens).1]
        exact fun _ => by simp
      · rw [(templateLine_outside hin hopens).1]
        exact fun h => absurd (h.symm.trans hin) Bool.noConfusion

theorem templateLine_trim (hs : s.in_table = true → s.tables ≠ []) (line : Text) :
    templateLine s (trimEol line) = templateLine s line := by
  have hidempotent : trimEol (trimEol line) = trimEol line := List.rdropWhile_idempotent _ _
  cases hin : s.in_table with
  | false =>
      by_cases hopens : strstr (trimEol line) "===table==="
      · rw [(templateLine_opens hin hopens).1, (templateLine_opens hin (by rwa [hidempotent])).1]
      · rw [(templateLine_outside hin hopens).1,
          (templateLine_outside hin (by rwa [hidempotent])).1]
  | true =>
      rcases eq_or_ne (trimEol line) [] with hnil | hne
      · rw [hnil]
        exact (templateLine_blank hin (hs hin) hnil).symm
      · have hline : line ≠ [] := by
          rintro rfl
          exact hne rfl
        rw [templateLine, if_neg hne, templateLine, if_neg hline, hidempotent]

theorem foldl_trim (hs : s.in_table = true → s.tables ≠ []) (lines : List Text) :
    lines.foldl templateLine s = (lines.map trimEol).foldl templateLine s := by
  induction lines generalizing s with
  | nil => rfl
  | cons line lines ih =>
      rw [List.map_cons, List.foldl_cons, List.foldl_cons, templateLine_trim hs]
      exact ih (tables_ne_nil hs line)

theorem foldl_until_end {texts : List Text} (htrim : ∀ text ∈ texts, trimEol text = text)
    (hends : ∃ text ∈ texts, strstr text "===end_table===") (table : table_t)
    (vals_found : Nat) :
    texts.foldl templateLine ⟨[table], true, vals_found⟩ =
      (untilEnd texts).2.foldl templateLine
        ⟨[((untilEnd texts).1.foldl (fun s text => keywordLine text s) (table, vals_found)).1],
          false,
          ((untilEnd texts).1.foldl (fun s text => keywordLine text s) (table, vals_found)).2⟩ := by
  induction texts generalizing table vals_found with
  | nil => simp at hends
  | cons text texts ih =>
      rw [List.forall_mem_cons] at htrim
      rw [List.foldl_cons, templateLine_section table vals_found htrim.1, untilEnd]
      split
      · next hend =>
          rw [hend]
          rfl
      · next hend =>
          have hlater : ∃ text ∈ texts, strstr text "===end_table===" := by
            obtain ⟨text', hmem, hend'⟩ := hends
            rcases List.mem_cons.mp hmem with rfl | hmem
            · exact absurd hend' hend
            · exact ⟨text', hmem, hend'⟩
          rw [Bool.not_eq_true] at hend
          rw [hend]
          exact ih htrim.2 hlater _ _

theorem length_le_foldl (hs : s.in_table = true → s.tables ≠ []) (lines : List Text) :
    s.tables.length ≤ (lines.foldl templateLine s).tables.length := by
  induction lines generalizing s with
  | nil => exact le_rfl
  | cons line lines ih =>
      exact le_trans (length_le_templateLine hs line) (ih (tables_ne_nil hs line))

/-- Behind its end a section keeps its table as the only one unless a string opens another
section. -/
theorem foldl_closed_iff {texts : List Text} (htrim : ∀ text ∈ texts, trimEol text = text)
    (table table' : table_t) (vals_found : Nat) :
    (texts.foldl templateLine ⟨[table], false, vals_found⟩).tables = [table'] ↔
      table = table' ∧ ∀ text ∈ texts, ¬strstr text "===table===" := by
  induction texts with
  | nil => simp
  | cons text texts ih =>
      rw [List.forall_mem_cons] at htrim
      rw [List.foldl_cons, List.forall_mem_cons]
      by_cases hopens : strstr (trimEol text) "===table==="
      · rw [(templateLine_opens rfl hopens).1]
        rw [htrim.1] at hopens
        refine iff_of_false (fun h => ?_) fun h => h.2.1 hopens
        have hlength := @length_le_foldl ⟨[table] ++ [({} : table_t)], true, vals_found⟩
          (fun _ => by simp) texts
        rw [h] at hlength
        exact absurd hlength (Nat.not_succ_le_self 1)
      · rw [(templateLine_outside rfl hopens).1, ih htrim.2]
        rw [htrim.1] at hopens
        rw [and_iff_right hopens]

end Sections

section Strings

theorem newline_not_mem_text (l : SectionLine) : '\n' ∉ l.text := by
  rw [SectionLine.text, List.mem_append, not_or]
  refine ⟨?_, l.oneLine⟩
  cases l.keyword <;> decide

theorem strings_of_short {text : Text} (hnewline : '\n' ∉ text) (hnul : '\x00' ∉ text)
    (hshort : text.length + 1 < LINE_LEN) :
    ((fgetsFrom LINE_LEN (LINE_LEN - 1) [] (text ++ ['\n'])).map stringIn).map trimEol =
      [trimEol text] := by
  have hnul' : '\x00' ∉ text ++ ['\n'] := by
    rw [List.mem_append, not_or]
    exact ⟨hnul, by decide⟩
  have hlength : (text ++ ['\n']).length < LINE_LEN := by
    rw [List.length_append, List.length_singleton]
    exact hshort
  rw [fgetsFrom_of_short (isLine_concat hnewline) hlength, List.map_singleton,
    stringIn_eq_self hnul', List.map_singleton, trimEol_newline]

/-- The strings of a template with one section, without newline characters at the end. -/
theorem strings_sectionFile (lines : List SectionLine) :
    (fgetsLines LINE_LEN (sectionFile lines)).map trimEol =
      "===table===".toList :: sectionStrings lines := by
  have hlines : ∀ line ∈ "===table===".toList ::
      (lines.map SectionLine.text ++ ["===end_table===".toList]), '\n' ∉ line := by
    rw [List.forall_mem_cons, List.forall_mem_append, List.forall_mem_map,
      List.forall_mem_singleton]
    exact ⟨by decide, fun l _ => newline_not_mem_text l, by decide⟩
  have htable : trimEol "===table===".toList = "===table===".toList := by decide
  have hend_table : trimEol "===end_table===".toList = "===end_table===".toList := by decide
  have hopen := @strings_of_short "===table===".toList (by decide) (by decide) (by decide)
  have hclose := @strings_of_short "===end_table===".toList (by decide) (by decide) (by decide)
  rw [htable] at hopen
  rw [hend_table] at hclose
  have hfile : fileLines (sectionFile lines) = ("===table===".toList ::
      (lines.map SectionLine.text ++ ["===end_table===".toList])).map (· ++ ['\n']) :=
    fileLines_flatMap hlines
  rw [fgetsLines_eq, hfile, List.map_flatMap, List.flatMap_map, List.flatMap_cons, hopen,
    List.flatMap_append, List.flatMap_map, List.flatMap_singleton, hclose, List.singleton_append]
  rfl

theorem trimEol_of_mem_sectionStrings {lines : List SectionLine} {text : Text}
    (h : text ∈ sectionStrings lines) : trimEol text = text := by
  rcases List.mem_append.mp h with hmem | hmem
  · obtain ⟨l, -, hl⟩ := List.mem_flatMap.mp hmem
    obtain ⟨piece, -, rfl⟩ := List.mem_map.mp hl
    exact List.rdropWhile_idempotent _ _
  · obtain rfl := List.mem_singleton.mp hmem
    decide

theorem mem_untilEnd {texts : List Text} {text : Text} (h : text ∈ (untilEnd texts).2) :
    text ∈ texts := by
  induction texts with
  | nil => exact h
  | cons first texts ih =>
      rw [untilEnd] at h
      split at h
      · exact List.mem_cons_of_mem _ h
      · exact List.mem_cons_of_mem _ (ih h)

end Strings

theorem parseTableTemplate_section (lines : List SectionLine) :
    (parseTableTemplate (some (sectionFile lines))).2 =
      ((untilEnd (sectionStrings lines)).2.foldl templateLine
        ⟨[((untilEnd (sectionStrings lines)).1.foldl (fun s text => keywordLine text s)
          ({}, 0)).1], false, ((untilEnd (sectionStrings lines)).1.foldl
            (fun s text => keywordLine text s) ({}, 0)).2⟩).tables := by
  have hends : ∃ text ∈ sectionStrings lines, strstr text "===end_table===" :=
    ⟨"===end_table===".toList, List.mem_append_right _ (List.mem_singleton_self _), by decide⟩
  have hopened : templateLine {} "===table===" = ⟨[{}], true, 0⟩ := by decide
  rw [parseTableTemplate]
  dsimp only
  rw [foldl_trim (fun h => Bool.noConfusion h), strings_sectionFile, List.foldl_cons, hopened,
    foldl_until_end (fun text => trimEol_of_mem_sectionStrings) hends]

/-- The table of a section is the one that its lines describe exactly if for each keyword
the strings in which it occurs say the same as the lines that it stands in front of. -/
theorem parseTableTemplate_section_iff (lines : List SectionLine) :
    parseTableTemplate (some (sectionFile lines)) = (0, [reference lines]) ↔
      FoundAsWritten lines := by
  have hresult : (parseTableTemplate (some (sectionFile lines))).1 = 0 := rfl
  rw [Prod.ext_iff, and_iff_right hresult, parseTableTemplate_section,
    foldl_closed_iff fun text htext => trimEol_of_mem_sectionStrings (mem_untilEnd htext),
    foldl_eq_reference_iff]
  constructor
  · rintro ⟨⟨hsep, hval_sep, hheaders, hcols, hnames, hnum_vals⟩, hclosed⟩
    exact ⟨hsep, hval_sep, hheaders, hcols, hnames, hnum_vals, hclosed⟩
  · intro h
    exact ⟨⟨h.sep, h.val_sep, h.headers, h.cols, h.val_names, h.num_vals⟩, h.closed⟩

/-- Three columns and a header that speaks of its own number of columns. -/
def gridLines : List SectionLine :=
  [⟨.cols, "3", by decide⟩, ⟨.header, "cols=7", by decide⟩]

/-- The header sets the number of columns back to 0. -/
theorem parseTableTemplate_section_fails_for_header :
    parseTableTemplate (some (sectionFile gridLines)) ≠ (0, [reference gridLines]) := by
  have hstrings : sectionStrings gridLines =
      ["cols=3".toList, "header=cols=7".toList, "===end_table===".toList] := by
    have hcols := @strings_of_short "cols=3".toList (by decide) (by decide) (by decide)
    have hheader := @strings_of_short "header=cols=7".toList (by decide) (by decide) (by decide)
    change (_ ++ (_ ++ [])) ++ _ = _
    exact congrArg₂ (fun front back => (front ++ (back ++ [])) ++ ["===end_table===".toList])
      hcols hheader
  intro h
  have htables := congrArg Prod.snd h
  rw [parseTableTemplate_section, hstrings] at htables
  exact absurd htables (by decide +kernel)

/-- A line that fits, with a value that is free of keywords and markers. -/
structure Plain (l : SectionLine) : Prop where
  short : l.text.length + 1 < LINE_LEN
  nul : '\x00' ∉ l.value
  stripped : trimEol l.value = l.value
  free : FreeOfKeywords l.value
  open_end : ¬"==end_table===".toList <+: l.value

section PlainLines

variable {l : SectionLine}

theorem strings_of_plain (h : Plain l) : l.strings = [l.text] := by
  have hnul : '\x00' ∉ l.text := by
    rw [SectionLine.text, List.mem_append, not_or]
    refine ⟨?_, h.nul⟩
    cases l.keyword <;> decide
  have htrim : trimEol l.text = l.text := by
    have hkeyword : trimEol (l.keyword.text ++ l.value) = l.keyword.text ++ trimEol l.value := by
      cases l.keyword <;> exact trimEol_append _ (by decide) (by decide)
    rw [SectionLine.text, hkeyword, h.stripped]
  rw [SectionLine.strings, strings_of_short (newline_not_mem_text l) hnul h.short, htrim]

theorem found_of_plain {lines : List SectionLine} (h : ∀ l ∈ lines, Plain l)
    (keyword : Keyword) (rest : List Text) :
    found keyword (lines.map SectionLine.text ++ rest) =
      written keyword lines ++ found keyword rest := by
  induction lines with
  | nil => rfl
  | cons l lines ih =>
      rw [List.forall_mem_cons] at h
      rw [List.map_cons, List.cons_append, found_cons, ih h.2, SectionLine.text,
        strstr_keyword l.keyword h.1.free, written, written, List.filter_cons]
      by_cases hkeyword : l.keyword = keyword
      · subst hkeyword
        rw [if_pos (by simp), if_pos (by simp), List.map_cons, List.drop_left]
        rfl
      · rw [if_neg (by simpa using Ne.symm hkeyword), if_neg (by simpa using hkeyword)]

theorem untilEnd_of_plain {lines : List SectionLine} (h : ∀ l ∈ lines, Plain l) :
    untilEnd (lines.map SectionLine.text ++ ["===end_table===".toList]) =
      (lines.map SectionLine.text ++ ["===end_table===".toList], []) := by
  induction lines with
  | nil => decide
  | cons l lines ih =>
      rw [List.forall_mem_cons] at h
      have hmarker : strstr l.text "===end_table===" = false := by
        rw [SectionLine.text, strstr_end_table l.keyword h.1.free]
        exact decide_eq_false h.1.open_end
      rw [List.map_cons, List.cons_append, untilEnd, hmarker, ih h.2]
      rfl

theorem foldl_copyOver_of_growing {texts : List Text}
    (h : texts.Pairwise fun text text' => text.length ≤ text'.length) :
    texts.foldl copyOver [] = texts.getLastD [] := by
  induction texts using List.reverseRecOn with
  | nil => rfl
  | append_singleton texts text ih =>
      rw [List.pairwise_append] at h
      have hlast : (texts.getLastD []).length ≤ text.length := by
        rw [List.getLastD_eq_getLast?]
        cases hget : texts.getLast? with
        | none => exact Nat.zero_le _
        | some last =>
            exact h.2.2 last (List.mem_of_getLast? hget) text (List.mem_singleton_self _)
      rw [List.foldl_append, ih h.1, List.getLastD_concat, List.foldl_cons, List.foldl_nil,
        copyOver, strncpy, if_neg (lt_irrefl _), List.take_length, List.drop_of_length_le hlast,
        List.append_nil]

/-- Plain lines are found as they are written if no separator is shorter than one before. -/
theorem foundAsWritten_of_plain {lines : List SectionLine} (h : ∀ l ∈ lines, Plain l)
    (hsep : (written .table_sep lines).Pairwise fun text text' => text.length ≤ text'.length)
    (hval_sep : (written .val_sep lines).Pairwise fun text text' => text.length ≤ text'.length) :
    FoundAsWritten lines := by
  have hstrings : sectionStrings lines =
      lines.map SectionLine.text ++ ["===end_table===".toList] := by
    rw [sectionStrings, List.map_eq_flatMap]
    exact congrArg (· ++ _) (List.flatMap_congr fun l hl => strings_of_plain (h l hl))
  have hread : untilEnd (sectionStrings lines) = (sectionStrings lines, []) := by
    rw [hstrings, untilEnd_of_plain h]
  have hfound (keyword : Keyword) :
      found keyword (untilEnd (sectionStrings lines)).1 = written keyword lines := by
    have hend : found keyword ["===end_table===".toList] = [] := by
      cases keyword <;> decide
    rw [hread, hstrings, found_of_plain h, hend, List.append_nil]
  refine ⟨?_, ?_, ?_, ?_, ?_, ?_, ?_⟩
  · rw [hfound, foldl_copyOver_of_growing hsep]
  · rw [hfound, foldl_copyOver_of_growing hval_sep]
  · rw [hfound]
  · rw [hfound]
  · rw [hfound]
    exact fun _ _ => rfl
  · rw [hfound]
  · rw [hread]
    exact fun _ htext => absurd htext List.not_mem_nil

end PlainLines

end DaapLog.ForeignKeywords

import DaapLog.FileLines
import DaapLog.LineTrimming
import DaapLog.ResultsParser
import DaapLog.TemplateBounds

/-!
Lines that are longer than the array `line`: what the two loops over `fgets` make of them,
against loops over the complete lines of the files.
-/

namespace DaapLog.LongLines

open DaapLog.ByteBuffers
open DaapLog.CStrings
open DaapLog.FileLines
open DaapLog.KeyTemplates
open DaapLog.ResultsParser
open DaapLog.Runs
open DaapLog.TableTemplates
open DaapLog.TemplateBounds

/-- The lines of a key template that are not empty. -/
def linePatterns (file : Text) : List Text := patterns (fileLines file)

/-- Each nonempty line is compiled once and as a whole. A regex that is stored behind the
array makes what follows undefined. -/
structure CompilesLines {ρ : Type} (pcre_compile : Text → Option ρ) (file : Text) : Prop where
  stored : ∀ index, .store index ∈ (parseKeyTemplate pcre_compile (some file)).2.2 →
    index < MAX_KEY_REGEXES
  compiled : (parseKeyTemplate pcre_compile (some file)).2.2.filterMap KeyEvent.pattern? =
    linePatterns file

/-- The lines as the rest of the loop body sees them, when the stripping of a line may
depend on the lines before it. -/
def strippedLines (strip : List Text → Text → Text) : List Text → List Text → List Text
  | _, [] => []
  | past, line :: rest => strip past line :: strippedLines strip (past ++ [line]) rest

/-- The line loop of `parseResults` does with the strings of `fgets` what it does with
complete lines, in whatever way lines are stripped. -/
def AppliesToLines (file : Text) : Prop :=
  ∀ (ρ : Type) (p : Parser ρ) (strip : List Text → Text → Text) (columns : Nat → Text),
    parseLines p columns (strippedLines strip [] (fgetsLines LINE_LEN file)) =
      parseLines p columns (strippedLines strip [] (fileLines file))

section Strings

variable {line piece : Text}

theorem stringIn_eq_self (h : '\x00' ∉ line) : stringIn line = line := by
  rw [stringIn, List.takeWhile_eq_self_iff]
  intro c hc
  rw [decide_eq_true_eq]
  rintro rfl
  exact h hc

theorem fgetsLines_eq (file : Text) :
    fgetsLines LINE_LEN file =
      (fileLines file).flatMap fun line =>
        (fgetsFrom LINE_LEN (LINE_LEN - 1) [] line).map stringIn := by
  rw [fgetsLines, fgetsFrom_fileLines, List.map_flatMap]
  rfl

theorem mem_fgetsLines {file : Text} (h : line ∈ fgetsLines LINE_LEN file) :
    line.length < LINE_LEN ∧ '\x00' ∉ line := by
  obtain ⟨piece, hpiece, rfl⟩ := List.mem_map.mp h
  have hlength := length_of_mem_fgetsFrom (by decide) (by decide) rfl piece hpiece
  exact ⟨lt_of_le_of_lt (length_stringIn_le piece) hlength, nul_not_mem_stringIn piece⟩

theorem fgetsFrom_of_short (hline : IsLine line) (hshort : line.length < LINE_LEN) :
    fgetsFrom LINE_LEN (LINE_LEN - 1) [] line = [line] := by
  rw [fgetsFrom_short hline (Nat.le_sub_one_of_lt hshort), List.nil_append]

theorem trimEol_eq_nil (h : ∀ c ∈ line, isEol c = true) : trimEol line = [] := by
  rw [trimEol, List.rdropWhile_eq_nil_iff]
  exact h

theorem exists_eols (line : Text) :
    ∃ eols, line = trimEol line ++ eols ∧ ∀ c ∈ eols, isEol c = true := by
  refine ⟨line.rtakeWhile isEol, List.rdropWhile_append_rtakeWhile.symm, ?_⟩
  intro c hc
  exact List.mem_rtakeWhile_imp hc

/-- The first string of a line that is cut has all of it but newline characters, if what
is left by stripping has room. -/
theorem trimEol_take (n : Nat) (h : (trimEol line).length ≤ n) :
    trimEol (line.take n) = trimEol line ∧ ∀ c ∈ line.drop n, isEol c = true := by
  obtain ⟨eols, hline, heols⟩ := exists_eols line
  have hstripped : trimEol (trimEol line) = trimEol line := List.rdropWhile_idempotent isEol line
  generalize trimEol line = front at hline hstripped h
  rw [hline, List.take_append, List.drop_append, List.take_of_length_le h,
    List.drop_eq_nil_of_le h, List.nil_append]
  constructor
  · rw [trimEol_append_eol front fun c hc => heols c (List.mem_of_mem_take hc), hstripped]
  · exact fun c hc => heols c (List.mem_of_mem_drop hc)

end Strings

section Templates

theorem patterns_append (front back : List Text) :
    patterns (front ++ back) = patterns front ++ patterns back := by
  rw [patterns, List.map_append, List.filter_append]
  rfl

theorem patterns_flatMap (f : Text → List Text) (lines : List Text) :
    patterns (lines.flatMap f) = lines.flatMap fun line => patterns (f line) := by
  induction lines with
  | nil => rfl
  | cons line lines ih => rw [List.flatMap_cons, patterns_append, ih, List.flatMap_cons]

theorem patterns_eq_flatMap (lines : List Text) :
    patterns lines = lines.flatMap fun line => patterns [line] := by
  rw [← patterns_flatMap, List.flatMap_singleton']

theorem patterns_eq_nil {lines : List Text} (h : ∀ line ∈ lines, trimEol line = []) :
    patterns lines = [] := by
  rw [patterns, List.filter_eq_nil_iff, List.forall_mem_map]
  intro line hline
  rw [h line hline]
  decide

theorem patterns_of_line {line : Text} (hline : IsLine line) (hnul : '\x00' ∉ line)
    (hroom : (trimEol line).length < LINE_LEN) :
    patterns ((fgetsFrom LINE_LEN (LINE_LEN - 1) [] line).map stringIn) = patterns [line] := by
  rcases Nat.lt_or_ge line.length LINE_LEN with hshort | hlong
  · rw [fgetsFrom_of_short hline hshort, List.map_singleton, stringIn_eq_self hnul]
  · have hlonger : LINE_LEN - 1 < line.length := by
      rw [LINE_LEN] at hlong ⊢
      omega
    obtain ⟨hfirst, hrest⟩ := @trimEol_take line (LINE_LEN - 1) (Nat.le_sub_one_of_lt hroom)
    have hpieces : patterns ((fgetsFrom LINE_LEN (LINE_LEN - 1) []
        (line.drop (LINE_LEN - 1))).map stringIn) = [] := by
      apply patterns_eq_nil
      rw [List.forall_mem_map]
      intro piece hpiece
      apply trimEol_eq_nil
      intro c hc
      have hmem : c ∈ (fgetsFrom LINE_LEN (LINE_LEN - 1) [] (line.drop (LINE_LEN - 1))).flatten :=
        List.mem_flatten.mpr ⟨piece, hpiece, (List.takeWhile_prefix _).subset hc⟩
      rw [flatten_fgetsFrom, List.nil_append] at hmem
      exact hrest c hmem
    have hfront : '\x00' ∉ line.take (LINE_LEN - 1) := fun h => hnul (List.mem_of_mem_take h)
    rw [fgetsFrom_line_eq (by decide) hline.2 hlonger, List.nil_append, List.map_cons,
      stringIn_eq_self hfront, patterns_cons, hpieces, patterns_cons, hfirst]
    rfl

theorem nul_mem_trimEol_iff (line : Text) : '\x00' ∈ trimEol line ↔ '\x00' ∈ line := by
  obtain ⟨eols, hline, heols⟩ := exists_eols line
  constructor
  · exact fun h => (List.rdropWhile_prefix isEol line).subset h
  · intro h
    rw [hline] at h
    rcases List.mem_append.mp h with hfront | heol
    · exact hfront
    · exact absurd (heols _ heol) (by decide)

theorem mem_patterns_iff (lines : List Text) (pattern : Text) :
    pattern ∈ patterns lines ↔ pattern ≠ [] ∧ ∃ line ∈ lines, trimEol line = pattern := by
  rw [patterns, List.mem_filter, List.mem_map, decide_eq_true_eq]
  exact And.comm

/-- The loop compiles the lines exactly if each of them fits and has no NUL. -/
theorem patterns_fgetsLines_iff (file : Text) :
    patterns (fgetsLines LINE_LEN file) = linePatterns file ↔
      ∀ pattern ∈ linePatterns file, pattern.length < LINE_LEN ∧ '\x00' ∉ pattern := by
  constructor
  · intro h pattern hpattern
    rw [← h] at hpattern
    obtain ⟨-, line, hline, rfl⟩ := (mem_patterns_iff _ _).mp hpattern
    obtain ⟨hlength, hnul⟩ := mem_fgetsLines hline
    have hshorter : trimEol line <+: line := List.rdropWhile_prefix isEol line
    exact ⟨lt_of_le_of_lt hshorter.length_le hlength, fun h => hnul (hshorter.subset h)⟩
  · intro h
    rw [fgetsLines_eq, patterns_flatMap, linePatterns, patterns_eq_flatMap (fileLines file)]
    apply List.flatMap_congr
    intro line hline
    rcases eq_or_ne (trimEol line) [] with hnil | hne
    · refine patterns_of_line (isLine_of_mem line hline) ?_ ?_
      · rw [← nul_mem_trimEol_iff, hnil]
        exact List.not_mem_nil
      · rw [hnil]
        decide
    · obtain ⟨hlength, hnul⟩ := h (trimEol line) ((mem_patterns_iff _ _).mpr ⟨hne, line, hline, rfl⟩)
      rw [nul_mem_trimEol_iff] at hnul
      exact patterns_of_line (isLine_of_mem line hline) hnul hlength

theorem compilesLines_iff {ρ : Type} (pcre_compile : Text → Option ρ) (file : Text) :
    CompilesLines pcre_compile file ↔
      (∀ pattern ∈ linePatterns file, pattern.length < LINE_LEN ∧ '\x00' ∉ pattern) ∧
        ((linePatterns file).filterMap pcre_compile).length ≤ MAX_KEY_REGEXES := by
  obtain ⟨-, hcompiled, -⟩ := keyLines_eq pcre_compile [] (fgetsLines LINE_LEN file)
  rw [← patterns_fgetsLines_iff]
  constructor
  · rintro ⟨hstored, hlines⟩
    have hpatterns : patterns (fgetsLines LINE_LEN file) = linePatterns file :=
      hcompiled.symm.trans hlines
    refine ⟨hpatterns, Nat.le_of_not_lt fun hmore => ?_⟩
    rw [← hpatterns] at hmore
    exact absurd (hstored _ ((store_mem_iff pcre_compile file _).mpr hmore)) (lt_irrefl _)
  · rintro ⟨hpatterns, hmore⟩
    refine ⟨fun index hindex => ?_, hcompiled.trans hpatterns⟩
    have hlt := (store_mem_iff pcre_compile file index).mp hindex
    rw [hpatterns] at hlt
    exact lt_of_lt_of_le hlt hmore

end Templates

section Results

theorem strippedLines_id (past lines : List Text) :
    strippedLines (fun _ line => line) past lines = lines := by
  induction lines generalizing past with
  | nil => rfl
  | cons line lines ih => rw [strippedLines, ih]

/-- A parser without tables that tries one regex on every line. -/
def oneRegex : Parser Unit where
  tables := []
  key_regexes := [()]
  pcre_exec := fun _ _ => (-1, [])

theorem parseLines_oneRegex (columns : Nat → Text) (lines : List Text) :
    parseLines oneRegex columns lines = some (⟨{}, columns⟩, lines.map (.exec 0)) := by
  rw [parseLines]
  induction lines with
  | nil => rfl
  | cons line lines ih =>
      have hline : parseLine oneRegex ⟨{}, columns⟩ line =
          some (⟨{}, columns⟩, [.exec 0 line]) := rfl
      rw [run, hline, Option.bind_some, ih]
      rfl

theorem fgetsLines_eq_fileLines_iff (file : Text) :
    fgetsLines LINE_LEN file = fileLines file ↔
      ∀ line ∈ fileLines file, line.length < LINE_LEN ∧ '\x00' ∉ line := by
  constructor
  · intro h line hline
    rw [← h] at hline
    exact mem_fgetsLines hline
  · intro h
    rw [fgetsLines_eq]
    refine Eq.trans (List.flatMap_congr fun line hline => ?_) (List.flatMap_singleton' _)
    obtain ⟨hlength, hnul⟩ := h line hline
    rw [fgetsFrom_of_short (isLine_of_mem line hline) hlength, List.map_singleton,
      stringIn_eq_self hnul]

theorem appliesToLines_iff (file : Text) :
    AppliesToLines file ↔ ∀ line ∈ fileLines file, line.length < LINE_LEN ∧ '\x00' ∉ line := by
  rw [← fgetsLines_eq_fileLines_iff]
  constructor
  · intro h
    have hrun := h Unit oneRegex (fun _ line => line) fun _ => []
    rw [strippedLines_id, strippedLines_id, parseLines_oneRegex, parseLines_oneRegex] at hrun
    have hevents := (Prod.mk.inj (Option.some.inj hrun)).2
    exact List.map_injective_iff.mpr (fun _ _ heq => (Event.exec.inj heq).2) hevents
  · intro h ρ p strip columns
    rw [h]

end Results

/-- Lines are the unit of work of both loops exactly if every line of the key template has at
most 511 characters in front of its newline characters and at most `MAX_KEY_REGEXES` are
compiled, every line of the results file has at most 511 characters with its newline, and
there is no NUL in a line. -/
theorem linesAreUnit_iff {ρ : Type} (pcre_compile : Text → Option ρ)
    (key_template results : Text) :
    CompilesLines pcre_compile key_template ∧ AppliesToLines results ↔
      ((∀ pattern ∈ linePatterns key_template, pattern.length < LINE_LEN ∧ '\x00' ∉ pattern) ∧
        ((linePatterns key_template).filterMap pcre_compile).length ≤ MAX_KEY_REGEXES) ∧
      ∀ line ∈ fileLines results, line.length < LINE_LEN ∧ '\x00' ∉ line :=
  and_congr (compilesLines_iff pcre_compile key_template) (appliesToLines_iff results)

/-- A line of 512 characters is compiled as two regexes, and tried as two lines. -/
theorem linesAreUnit_fails_on_long :
    ¬CompilesLines (fun _ => some ()) (List.replicate 512 'a') ∧
      ¬AppliesToLines (List.replicate 512 'a') := by
  have hne : List.replicate 512 'a' ≠ [] := by
    apply List.ne_nil_of_length_pos
    rw [List.length_replicate]
    decide
  have hnewline : '\n' ∉ List.replicate 512 'a' := by
    rw [List.mem_replicate]
    decide
  have hlines := fileLines_last hne hnewline
  have hlong : ¬(List.replicate 512 'a').length < LINE_LEN := by
    rw [List.length_replicate]
    decide
  constructor
  · intro h
    have hstripped : trimEol (List.replicate 512 'a') = List.replicate 512 'a' := by
      rw [trimEol, List.rdropWhile_eq_self_iff]
      intro hlast heol
      rw [List.getLast_replicate] at heol
      exact absurd heol (by decide)
    have hfits := ((compilesLines_iff _ _).mp h).1 (List.replicate 512 'a')
      ((mem_patterns_iff _ _).mpr ⟨hne, _, by rw [hlines]; exact List.mem_singleton_self _, hstripped⟩)
    exact hlong hfits.1
  · intro h
    have hfits := (appliesToLines_iff _).mp h (List.replicate 512 'a')
      (by rw [hlines]; exact List.mem_singleton_self _)
    exact hlong hfits.1

end DaapLog.LongLines

import DaapLog.KeyTemplates

/-!
The indices at which the two template parsers use their arrays. What a parser does behind
an index that is out of range is undefined; the lists of the model go on, which does not
matter for the first such index.
-/

namespace DaapLog.TemplateBounds

open DaapLog.CStrings
open DaapLog.KeyTemplates
open DaapLog.TableTemplates

/-- An access of `parseTableTemplate` to `tables` or to an array of the current table. -/
inductive TableAccess
  | tables (num_tables : Int)
  | header_names (num_headers : Nat)
  | val_names (vals_found : Nat)
  deriving DecidableEq

def TableAccess.InRange : TableAccess → Prop
  | tables num_tables => 0 ≤ num_tables ∧ num_tables < MAX_TABLES
  | header_names num_headers => num_headers < MAX_HEADERS
  | val_names vals_found => vals_found < MAX_VALS

instance (access : TableAccess) : Decidable access.InRange :=
  match access with
  | .tables num_tables => inferInstanceAs (Decidable (0 ≤ num_tables ∧ num_tables < MAX_TABLES))
  | .header_names num_headers => inferInstanceAs (Decidable (num_headers < MAX_HEADERS))
  | .val_names vals_found => inferInstanceAs (Decidable (vals_found < MAX_VALS))

/-- The accesses of one round of the line loop. The counter `num_tables` starts at `-1`
and is raised before a table is stored. -/
def tableAccesses (s : TemplateState) (line : Text) : List TableAccess :=
  if line = [] then []
  else
    let line := trimEol line
    let num_tables : Int := s.tables.length - 1
    if !s.in_table then
      if strstr line "===table===" then [.tables (num_tables + 1)] else []
    else
      let table := s.tables.getLastD {}
      .tables num_tables ::
        ((if strstr line "header=" ∧ table.num_headers < MAX_HEADERS then
            [.header_names table.num_headers] else []) ++
          (if strstr line "val_name=" ∧ s.vals_found < MAX_VALS then
            [.val_names s.vals_found] else []))

def tableAccessesFrom : TemplateState → List Text → List TableAccess
  | _, [] => []
  | s, line :: rest => tableAccesses s line ++ tableAccessesFrom (templateLine s line) rest

/-- The sections that are opened by lines of a template. -/
def sectionsFrom : Bool → List Text → Nat
  | _, [] => 0
  | false, line :: rest =>
      if strstr (trimEol line) "===table===" then sectionsFrom true rest + 1
      else sectionsFrom false rest
  | true, line :: rest => sectionsFrom (!strstr (trimEol line) "===end_table===") rest

def sections (file : Text) : Nat := sectionsFrom false (fgetsLines LINE_LEN file)

/-- Every index of `parseTableTemplate`, and every index at which `parseKeyTemplate`
stores a regex. -/
structure ArraysInRange {ρ : Type*} (pcre_compile : Text → Option ρ)
    (table_template key_template : Option Text) : Prop where
  tables : ∀ file, table_template = some file →
    ∀ access ∈ tableAccessesFrom {} (fgetsLines LINE_LEN file), access.InRange
  key_regexes : ∀ index, .store index ∈ (parseKeyTemplate pcre_compile key_template).2.2 →
    index < MAX_KEY_REGEXES

section Tables

variable {s : TemplateState} {line : Text}

theorem templateLine_opens (hin : s.in_table = false)
    (hopens : strstr (trimEol line) "===table===") :
    templateLine s line = { s with tables := s.tables ++ [{}], in_table := true } ∧
      tableAccesses s line = [.tables s.tables.length] := by
  have hne : line ≠ [] := by
    rintro rfl
    exact absurd hopens (by decide)
  have hout : (!false) = true := rfl
  rw [templateLine, tableAccesses, if_neg hne, if_neg hne, hin]
  dsimp only
  rw [if_pos hout, if_pos hopens, if_pos hout, if_pos hopens]
  refine ⟨rfl, ?_⟩
  rw [show (s.tables.length : Int) - 1 + 1 = s.tables.length by omega]

theorem templateLine_outside (hin : s.in_table = false)
    (hopens : ¬strstr (trimEol line) "===table===") :
    templateLine s line = s ∧ tableAccesses s line = [] := by
  rw [templateLine, tableAccesses]
  split
  · exact ⟨rfl, rfl⟩
  · have hout : (!false) = true := rfl
    rw [hin]
    dsimp only
    rw [if_pos hout, if_neg hopens, if_pos hout, if_neg hopens]
    exact ⟨rfl, rfl⟩

/-- Inside of a section the number of tables stays, and the arrays of the current table
are used below their limits. -/
theorem templateLine_inside (hin : s.in_table = true) (hne : s.tables ≠ []) :
    (templateLine s line).tables.length = s.tables.length ∧
      (templateLine s line).in_table = !strstr (trimEol line) "===end_table===" ∧
      ∀ access ∈ tableAccesses s line, s.tables.length ≤ MAX_TABLES → access.InRange := by
  have hpos : 0 < s.tables.length := List.length_pos_of_ne_nil hne
  rw [templateLine, tableAccesses]
  split
  · next hnil =>
      rw [hnil]
      exact ⟨rfl, hin.trans (by decide), by simp⟩
  · have hinside : ¬(!true) = true := Bool.false_ne_true
    rw [hin]
    dsimp only
    rw [if_neg hinside, if_neg hinside]
    refine ⟨?_, rfl, ?_⟩
    · rw [List.length_append, List.length_dropLast, List.length_singleton]
      omega
    · rw [List.forall_mem_cons]
      constructor
      · intro hle
        exact ⟨by omega, by omega⟩
      · intro access haccess _
        rcases List.mem_append.mp haccess with hmem | hmem
        · split at hmem
          · next hroom =>
              obtain rfl := List.mem_singleton.mp hmem
              exact hroom.2
          · exact absurd hmem List.not_mem_nil
        · split at hmem
          · next hroom =>
              obtain rfl := List.mem_singleton.mp hmem
              exact hroom.2
          · exact absurd hmem List.not_mem_nil

theorem tableAccessesFrom_iff {s : TemplateState} (lines : List Text)
    (hin : s.in_table = true → s.tables ≠ []) (hle : s.tables.length ≤ MAX_TABLES) :
    (∀ access ∈ tableAccessesFrom s lines, access.InRange) ↔
      s.tables.length + sectionsFrom s.in_table lines ≤ MAX_TABLES := by
  induction lines generalizing s with
  | nil => exact iff_of_true (by simp [tableAccessesFrom]) (by simpa [sectionsFrom] using hle)
  | cons line lines ih =>
      rw [tableAccessesFrom, List.forall_mem_append]
      cases htable : s.in_table with
      | false =>
          rw [sectionsFrom]
          split
          · next hopens =>
              obtain ⟨hstep, haccesses⟩ := templateLine_opens htable hopens
              have hlength : (templateLine s line).tables.length = s.tables.length + 1 := by
                rw [hstep, List.length_append, List.length_singleton]
              have hnext : (templateLine s line).in_table = true := by rw [hstep]
              rw [haccesses, List.forall_mem_singleton]
              constructor
              · rintro ⟨hrange, hrest⟩
                have hlast : (s.tables.length : Int) < MAX_TABLES := hrange.2
                have hmore := (ih (fun _ hnil => by simp [hnil] at hlength)
                  (by omega)).mp hrest
                rw [hlength, hnext] at hmore
                omega
              · intro hmore
                refine ⟨⟨by omega, by omega⟩, ?_⟩
                refine (ih (fun _ hnil => by simp [hnil] at hlength) (by omega)).mpr ?_
                rw [hlength, hnext]
                omega
          · next hopens =>
              obtain ⟨hstep, haccesses⟩ := templateLine_outside htable hopens
              rw [haccesses, hstep, ih hin hle, htable, and_iff_right (by simp)]
      | true =>
          obtain ⟨hlength, hnext, haccesses⟩ := @templateLine_inside s line htable (hin htable)
          have hne : (templateLine s line).tables ≠ [] := by
            intro hnil
            rw [hnil, List.length_nil] at hlength
            exact hin htable (List.length_eq_zero_iff.mp hlength.symm)
          rw [sectionsFrom, and_iff_right fun access hmem => haccesses access hmem hle,
            ih (fun _ => hne) (by omega), hlength, hnext]

end Tables

theorem index_mem_iff {events : List KeyEvent} {index : Nat} :
    index ∈ events.filterMap KeyEvent.index? ↔ .store index ∈ events := by
  rw [List.mem_filterMap]
  constructor
  · rintro ⟨event, hevent, hindex⟩
    cases event with
    | pcre_compile pattern => exact absurd hindex (by simp [KeyEvent.index?])
    | store i =>
        obtain rfl := Option.some.inj hindex
        exact hevent
  · intro h
    exact ⟨_, h, rfl⟩

theorem store_mem_iff {ρ : Type*} (pcre_compile : Text → Option ρ) (file : Text) (index : Nat) :
    .store index ∈ (parseKeyTemplate pcre_compile (some file)).2.2 ↔
      index < ((patterns (fgetsLines LINE_LEN file)).filterMap pcre_compile).length := by
  obtain ⟨-, -, hindices⟩ := keyLines_eq pcre_compile [] (fgetsLines LINE_LEN file)
  rw [← index_mem_iff, parseKeyTemplate]
  dsimp only
  rw [hindices, List.mem_range']
  simp

/-- The arrays are never overrun exactly if the table template opens at most `MAX_TABLES`
sections and at most `MAX_KEY_REGEXES` lines of the key template can be compiled. -/
theorem arraysInRange_iff {ρ : Type*} (pcre_compile : Text → Option ρ)
    (table_template key_template : Option Text) :
    ArraysInRange pcre_compile table_template key_template ↔
      (∀ file, table_template = some file → sections file ≤ MAX_TABLES) ∧
      ∀ file, key_template = some file →
        ((patterns (fgetsLines LINE_LEN file)).filterMap pcre_compile).length ≤
          MAX_KEY_REGEXES := by
  have htables (file : Text) :
      (∀ access ∈ tableAccessesFrom {} (fgetsLines LINE_LEN file), access.InRange) ↔
        sections file ≤ MAX_TABLES := by
    rw [tableAccessesFrom_iff _ (by simp) (Nat.zero_le _)]
    exact iff_of_eq (congrArg (· ≤ MAX_TABLES) (Nat.zero_add _))
  constructor
  · rintro ⟨htable, hkey⟩
    refine ⟨fun file hfile => (htables file).mp (htable file hfile), ?_⟩
    rintro file rfl
    refine Nat.le_of_not_lt fun hmore => ?_
    exact absurd (hkey _ ((store_mem_iff pcre_compile file _).mpr hmore)) (lt_irrefl _)
  · rintro ⟨htable, hkey⟩
    refine ⟨fun file hfile => (htables file).mpr (htable file hfile), fun index hindex => ?_⟩
    cases key_template with
    | none => exact absurd hindex List.not_mem_nil
    | some file =>
        exact lt_of_lt_of_le ((store_mem_iff pcre_compile file index).mp hindex) (hkey file rfl)

/-- A template with a number of empty sections. -/
def emptySections (n : Nat) : List Text :=
  (List.replicate n ["===table===".toList, "===end_table===".toList]).flatten

theorem sectionsFrom_emptySections (n : Nat) :
    sectionsFrom false ((emptySections n).map (· ++ ['\n'])) = n := by
  induction n with
  | zero => rfl
  | succ n ih =>
      rw [emptySections, List.replicate_succ, List.flatten_cons, List.map_append]
      have hopens : strstr (trimEol ("===table===".toList ++ ['\n'])) "===table===" := by decide
      have hcloses : strstr (trimEol ("===end_table===".toList ++ ['\n'])) "===end_table===" := by
        decide
      rw [List.map_cons, List.map_cons, List.map_nil, List.cons_append, sectionsFrom,
        if_pos hopens, List.cons_append, sectionsFrom, hcloses, List.nil_append]
      exact congrArg (· + 1) ih

/-- The eleventh table is stored behind the array. -/
theorem arraysInRange_fails_at_sections :
    ¬ArraysInRange (fun _ => some ()) (some ((emptySections 11).flatMap (· ++ ['\n']))) none := by
  intro h
  have hlines : fgetsLines LINE_LEN ((emptySections 11).flatMap (· ++ ['\n'])) =
      (emptySections 11).map (· ++ ['\n']) := by
    apply fgetsLines_flatMap
    intro line hline
    obtain ⟨pair, hpair, hmem⟩ := List.mem_flatten.mp hline
    rw [List.eq_of_mem_replicate hpair] at hmem
    rcases List.mem_pair.mp hmem with rfl | rfl
    · decide
    · decide
  have hrange := h.tables _ rfl
  rw [tableAccessesFrom_iff _ (by simp) (Nat.zero_le _), hlines] at hrange
  change 0 + sectionsFrom false _ ≤ MAX_TABLES at hrange
  rw [sectionsFrom_emptySections] at hrange
  exact absurd hrange (by decide)

end DaapLog.TemplateBounds

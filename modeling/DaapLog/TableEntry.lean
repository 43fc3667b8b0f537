import DaapLog.TableRecognition

/-!
When the lines of all headers of a table bring the parser inside of it. One line
advances one table at most, the first of the template whose next header it has, and
inside of a table no header is looked for.
-/

namespace DaapLog.TableEntry

open DaapLog.CStrings
open DaapLog.TableTemplates
open DaapLog.TableRecognition

def recognizeFrom (tables : List table_t) (s : Recognizer) (lines : List Text) : Recognizer :=
  lines.foldl (fun s line => (recognize tables s line).1) s

/-- The next header of the table is in the line, and the scan gets as far. -/
def Reaches (tables : List table_t) (s : Recognizer) (t : Nat) (line : Text) : Prop :=
  s.in_table = false ∧ strstr line (nextHeader tables s.headers_found t) ∧
    ∀ u < t, ¬strstr line (nextHeader tables s.headers_found u)

theorem recognizeAll_append (tables : List table_t) (past lines : List Text) :
    recognizeAll tables (past ++ lines) =
      recognizeFrom tables (recognizeAll tables past) lines := by
  rw [recognizeAll, recognizeAll, recognizeFrom, List.foldl_append]

section Step

variable {tables : List table_t} {s : Recognizer} {t : Nat} {line : Text}

theorem reaches_unique {u : Nat} (ht : Reaches tables s t line) (hu : Reaches tables s u line) :
    u = t := by
  rcases lt_trichotomy u t with hlt | heq | hgt
  · exact absurd hu.2.1 (ht.2.2 u hlt)
  · exact heq
  · exact absurd ht.2.1 (hu.2.2 t hgt)

theorem recognize_outside (hin : s.in_table = false) (line : Text) :
    (∃ t < tables.length, Reaches tables s t line ∧
      (recognize tables s line).1 =
        ⟨some t, decide (s.headers_found t + 1 = (tableAt tables t).num_headers),
          Function.update s.headers_found t (s.headers_found t + 1)⟩) ∨
    (∀ t < tables.length, ¬strstr line (nextHeader tables s.headers_found t)) ∧
      (recognize tables s line).1.headers_found = s.headers_found := by
  rcases headerScan_outside tables line s hin (List.range tables.length) with
    ⟨front, t, rest, hrange, hfound, hfront, hscan⟩ | ⟨hnone, hscan⟩
  · have hsorted : (front ++ t :: rest).Pairwise (· < ·) := hrange ▸ List.pairwise_lt_range
    have ht : t < tables.length := by
      rw [← List.mem_range, hrange]
      exact List.mem_append_right _ List.mem_cons_self
    refine Or.inl ⟨t, ht, ⟨hin, hfound, fun u hu => hfront u ?_⟩, ?_⟩
    · have hmem : u ∈ List.range tables.length := List.mem_range.mpr (hu.trans ht)
      rw [hrange, List.mem_append] at hmem
      refine hmem.resolve_right fun hback => ?_
      rcases List.mem_cons.mp hback with rfl | hrest
      · exact absurd hu (lt_irrefl u)
      · have hlt := List.rel_of_pairwise_cons (List.pairwise_append.mp hsorted).2.1 hrest
        exact absurd hu hlt.asymm
    · rw [recognize, scanAll, hscan]
      simp only [dropUnstarted, classify, Function.update_self, Nat.succ_ne_zero, if_false]
      by_cases hlast : s.headers_found t + 1 = (tableAt tables t).num_headers
      · simp [hlast]
      · simp [hlast]
  · refine Or.inr ⟨fun t ht => hnone t (List.mem_range.mpr ht), ?_⟩
    rw [recognize, scanAll, hscan]
    generalize (List.range tables.length).getLast?.or s.table = table
    cases table with
    | none => rfl
    | some t =>
        by_cases hstarted : s.headers_found t = 0
        · simp only [dropUnstarted, if_pos hstarted, classify]
        · simp only [dropUnstarted, if_neg hstarted, classify]
          split
          · rfl
          · rfl

theorem recognize_of_reaches (ht : t < tables.length) (h : Reaches tables s t line) :
    (recognize tables s line).1 =
      ⟨some t, decide (s.headers_found t + 1 = (tableAt tables t).num_headers),
        Function.update s.headers_found t (s.headers_found t + 1)⟩ := by
  rcases recognize_outside h.1 line with ⟨u, -, hu, hstate⟩ | ⟨hnone, -⟩
  · rw [reaches_unique h hu] at hstate
    exact hstate
  · exact absurd h.2.1 (hnone t ht)

theorem headers_found_recognize_le (hs : Sound tables s) (htables : HaveHeaders tables)
    (t : Nat) (line : Text) :
    (recognize tables s line).1.headers_found t ≤ s.headers_found t + 1 := by
  rcases headers_found_treated (recognize_treated hs htables line) t with h | h | ⟨h, -⟩
  · omega
  · omega
  · omega

/-- The counter of a table goes up exactly on the lines that the scan counts for it. -/
theorem headers_found_succ_iff (hs : Sound tables s) (htables : HaveHeaders tables)
    (ht : t < tables.length) :
    (recognize tables s line).1.headers_found t = s.headers_found t + 1 ↔
      Reaches tables s t line := by
  constructor
  · intro hcount
    have hin : s.in_table = false := by
      by_contra hin
      have htreated := recognize_treated hs htables line
      generalize recognize tables s line = r at hcount htreated
      obtain ⟨s', action⟩ := r
      cases htreated with
      | counted u _ hout _ _ => exact hin hout
      | entered u _ hout _ _ => exact hin hout
      | swallowed hout _ _ => exact hin hout
      | unmatched hout _ _ => exact hin hout
      | row u _ _ _ => exact absurd hcount (Nat.ne_of_lt (Nat.lt_succ_self _))
      | left u _ _ _ =>
          have hle : Function.update s.headers_found u 0 t ≤ s.headers_found t := by
            rw [Function.update_apply]
            split
            · exact Nat.zero_le _
            · exact le_rfl
          exact absurd hcount (Nat.ne_of_lt (Nat.lt_succ_of_le hle))
    rcases recognize_outside hin line with ⟨u, -, hu, hstate⟩ | ⟨-, hsame⟩
    · rw [hstate] at hcount
      rcases eq_or_ne t u with rfl | hne
      · exact hu
      · simp only [Function.update_of_ne hne] at hcount
        exact absurd hcount (Nat.ne_of_lt (Nat.lt_succ_self _))
    · rw [hsame] at hcount
      exact absurd hcount (Nat.ne_of_lt (Nat.lt_succ_self _))
  · intro h
    rw [recognize_of_reaches ht h]
    exact Function.update_self ..

end Step

section Run

variable {tables : List table_t} {s : Recognizer} {t : Nat}

theorem sound_recognize (htables : HaveHeaders tables) (hs : Sound tables s) (line : Text) :
    Sound tables (recognize tables s line).1 :=
  sound_treated htables hs (recognize_treated hs htables line)

theorem headers_found_recognizeFrom_le (htables : HaveHeaders tables) (hs : Sound tables s)
    (t : Nat) (lines : List Text) :
    (recognizeFrom tables s lines).headers_found t ≤ s.headers_found t + lines.length := by
  induction lines generalizing s with
  | nil => exact le_rfl
  | cons line lines ih =>
      have hrest := ih (sound_recognize htables hs line)
      have hline := headers_found_recognize_le hs htables t line
      rw [List.length_cons]
      exact hrest.trans (by omega)

/-- The lines carry the next headers of the table one by one in order. -/
def CarryNext (tables : List table_t) (s : Recognizer) (t : Nat) (lines : List Text) : Prop :=
  ∀ j line, lines[j]? = some line →
    strstr line ((tableAt tables t).header_names.getD (s.headers_found t + j) [])

theorem nextHeader_of_reaches {line : Text} (ht : t < tables.length)
    (h : Reaches tables s t line) {u : Nat} (hu : u ≠ t) :
    nextHeader tables (recognize tables s line).1.headers_found u =
      nextHeader tables s.headers_found u := by
  rw [nextHeader, nextHeader, recognize_of_reaches ht h]
  simp only [Function.update_of_ne hu]

theorem carryNext_of_reaches {line : Text} {lines : List Text} (ht : t < tables.length)
    (h : Reaches tables s t line) (hcarry : CarryNext tables s t (line :: lines)) :
    CarryNext tables (recognize tables s line).1 t lines := by
  intro j line' hj
  have hcount : (recognize tables s line).1.headers_found t = s.headers_found t + 1 := by
    rw [recognize_of_reaches ht h]
    exact Function.update_self ..
  rw [hcount, Nat.add_assoc, Nat.add_comm 1 j]
  exact hcarry (j + 1) line' hj

/-- Lines that carry the next headers of a table are all counted for it exactly if none
of them is inside of a table or counted for a table in front. -/
theorem recognizeFrom_counts_iff (htables : HaveHeaders tables) (hs : Sound tables s)
    (ht : t < tables.length) {lines : List Text} (hcarry : CarryNext tables s t lines)
    (hlength : s.headers_found t + lines.length ≤ (tableAt tables t).num_headers) :
    (recognizeFrom tables s lines).headers_found t = s.headers_found t + lines.length ↔
      lines = [] ∨ s.in_table = false ∧
        ∀ u < t, ∀ line ∈ lines, ¬strstr line (nextHeader tables s.headers_found u) := by
  induction lines generalizing s with
  | nil => exact iff_of_true rfl (Or.inl rfl)
  | cons line lines ih =>
      have hsound := sound_recognize htables hs line
      have hfirst : strstr line (nextHeader tables s.headers_found t) := hcarry 0 line rfl
      have hstep := headers_found_recognize_le hs htables t line
      have hrest := headers_found_recognizeFrom_le htables hsound t lines
      have hcounted : (recognize tables s line).1.headers_found t = s.headers_found t + 1 ↔
          Reaches tables s t line := headers_found_succ_iff hs htables ht
      rw [List.length_cons] at hlength ⊢
      change (recognizeFrom tables (recognize tables s line).1 lines).headers_found t = _ ↔ _
      have hlater (hline : Reaches tables s t line) :
          (recognizeFrom tables (recognize tables s line).1 lines).headers_found t =
              s.headers_found t + 1 + lines.length ↔
            lines = [] ∨ ∀ u < t, ∀ line ∈ lines,
              ¬strstr line (nextHeader tables s.headers_found u) := by
        have hcount := hcounted.mpr hline
        have hiff := ih hsound (carryNext_of_reaches ht hline hcarry) (by omega)
        rw [hcount] at hiff
        rw [hiff]
        refine or_congr_right' fun hne => ?_
        have hmore := List.length_pos_of_ne_nil hne
        have hout : (recognize tables s line).1.in_table = false := by
          rw [recognize_of_reaches ht hline]
          exact decide_eq_false (by omega)
        rw [and_iff_right hout]
        refine forall₂_congr fun u hu => ?_
        rw [nextHeader_of_reaches ht hline hu.ne]
      constructor
      · intro hall
        have hline := hcounted.mp (by omega)
        refine Or.inr ⟨hline.1, fun u hu => List.forall_mem_cons.mpr ⟨hline.2.2 u hu, ?_⟩⟩
        rcases (hlater hline).mp (by omega) with rfl | hnone
        · exact fun _ h => absurd h List.not_mem_nil
        · exact hnone u hu
      · rintro (hnil | ⟨hin, hnone⟩)
        · exact absurd hnil (List.cons_ne_nil _ _)
        · have hline : Reaches tables s t line :=
            ⟨hin, hfirst, fun u hu => hnone u hu line List.mem_cons_self⟩
          have hcount := (hlater hline).mpr
            (Or.inr fun u hu line' h => hnone u hu line' (List.mem_cons_of_mem _ h))
          omega

end Run

/-- The parser is inside of the table. -/
def Inside (s : Recognizer) (t : Nat) : Prop := s.in_table = true ∧ s.table = some t

instance (s : Recognizer) (t : Nat) : Decidable (Inside s t) :=
  inferInstanceAs (Decidable (_ ∧ _))

theorem inside_iff {tables : List table_t} {s : Recognizer} (hs : Sound tables s) {t : Nat}
    (ht : t < tables.length) :
    Inside s t ↔ s.headers_found t = (tableAt tables t).num_headers :=
  ⟨fun h => hs.complete h.1 t h.2, hs.only t ht⟩

/-- Lines with all headers of a table of which none was found before bring the parser
inside of it exactly if it is outside of every table in front of them and none of them
has the next header of a table in front in the template. -/
theorem recognizeAll_inside_iff {tables : List table_t} (htables : HaveHeaders tables)
    (past : List Text) {t : Nat} (ht : t < tables.length)
    (hstart : (recognizeAll tables past).headers_found t = 0) {lines : List Text}
    (hlines : List.Forall₂ (fun line header => strstr line header) lines (headers tables t)) :
    Inside (recognizeAll tables (past ++ lines)) t ↔
      (recognizeAll tables past).in_table = false ∧ ∀ u < t, ∀ line ∈ lines,
        ¬strstr line (nextHeader tables (recognizeAll tables past).headers_found u) := by
  have hlength : lines.length = (tableAt tables t).num_headers := by
    rw [hlines.length_eq, headers, List.length_map, List.length_range]
  have hne : lines ≠ [] := by
    have := htables t ht
    rintro rfl
    rw [← hlength] at this
    exact absurd this (by simp)
  have hcarry : CarryNext tables (recognizeAll tables past) t lines := by
    intro j line hj
    obtain ⟨hlt, rfl⟩ := List.getElem?_eq_some_iff.mp hj
    have hheader := hlines.get hlt (hlines.length_eq ▸ hlt)
    simpa [headers, hstart] using hheader
  have hcounts := recognizeFrom_counts_iff htables (sound_recognizeAll htables past) ht hcarry
    (by omega)
  rw [inside_iff (sound_recognizeAll htables _) ht, recognizeAll_append, ← hlength]
  rw [hstart, Nat.zero_add, or_iff_right hne] at hcounts
  exact hcounts

/-- A table of one header line that may follow the rows of `timings`. -/
def cells : table_t :=
  { sep := ":"
    val_sep := ","
    num_headers := 1
    header_names := "Cells" :: List.replicate 9 []
    cols := 1
    val_names := "cells" :: List.replicate 19 [] }

theorem haveHeaders_timings_cells : HaveHeaders [timings, cells] := by
  unfold HaveHeaders
  decide

theorem recognizeAll_inside_iff_cells :
    Inside (recognizeAll [timings, cells] ["x=1", "Cells"]) 1 := by
  have hlines : List.Forall₂ (fun line header => (strstr line header : Prop)) [("Cells" : Text)]
      (headers [timings, cells] 1) := by
    exact .cons (by decide) .nil
  exact (recognizeAll_inside_iff haveHeaders_timings_cells ["x=1"] (by decide) rfl hlines).mpr
    (by decide)

/-- The line that ends the rows of a table is not compared with the header of the next. -/
theorem recognizeAll_misses_cells :
    HaveHeaders [timings, cells] ∧
      Inside (recognizeAll [timings, cells] ["Operation | Pct", "----------+----", "sort | 12"]) 0 ∧
      ¬strstr "Cells" timings.sep ∧
      (recognizeAll [timings, cells]
        ["Operation | Pct", "----------+----", "sort | 12"]).headers_found 1 = 0 ∧
      headers [timings, cells] 1 = ["Cells"] ∧
      ¬Inside (recognizeAll [timings, cells]
        ["Operation | Pct", "----------+----", "sort | 12", "Cells"]) 1 :=
  ⟨haveHeaders_timings_cells, by decide, by decide, by decide, by decide, by decide⟩

end DaapLog.TableEntry

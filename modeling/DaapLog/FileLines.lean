import DaapLog.CStrings

/-!
The lines of a file against the strings that a loop over `fgets` sees.
-/

namespace DaapLog.FileLines

open DaapLog.CStrings

def linesFrom : Text → Text → List Text
  | line, [] => if line = [] then [] else [line]
  | line, c :: rest =>
      if c = '\n' then (line ++ [c]) :: linesFrom [] rest else linesFrom (line ++ [c]) rest

/-- The lines of a file, each with its newline; the last one may have none. -/
def fileLines (file : Text) : List Text := linesFrom [] file

/-- A newline, if there is one, ends the line. -/
def IsLine (line : Text) : Prop := line ≠ [] ∧ '\n' ∉ line.dropLast

section Lines

variable {line word rest : Text} {file : Text}

theorem linesFrom_newline (hword : '\n' ∉ word) (line rest : Text) :
    linesFrom line (word ++ '\n' :: rest) = (line ++ word ++ ['\n']) :: linesFrom [] rest := by
  induction word generalizing line with
  | nil => rw [List.nil_append, linesFrom, if_pos rfl, List.append_nil]
  | cons c word ih =>
      rw [List.mem_cons, not_or] at hword
      rw [List.cons_append, linesFrom, if_neg (Ne.symm hword.1), ih hword.2]
      simp

theorem linesFrom_rest (hword : '\n' ∉ word) (line : Text) :
    linesFrom line word = if line ++ word = [] then [] else [line ++ word] := by
  induction word generalizing line with
  | nil => rw [linesFrom, List.append_nil]
  | cons c word ih =>
      rw [List.mem_cons, not_or] at hword
      rw [linesFrom, if_neg (Ne.symm hword.1), ih hword.2]
      simp

theorem fileLines_induction {motive : Text → Prop} (nil : motive [])
    (last : ∀ word, word ≠ [] → '\n' ∉ word → motive word)
    (line : ∀ word rest, '\n' ∉ word → motive rest → motive (word ++ '\n' :: rest))
    (file : Text) : motive file := by
  by_cases hnewline : '\n' ∈ file
  · obtain ⟨word, rest, hfile, hword⟩ := List.eq_append_cons_of_mem hnewline
    have hshort : rest.length < file.length := by
      rw [hfile, List.length_append, List.length_cons]
      omega
    rw [hfile]
    exact line word rest hword (fileLines_induction nil last line rest)
  · rcases eq_or_ne file [] with rfl | hne
    · exact nil
    · exact last file hne hnewline
termination_by file.length

@[simp]
theorem fileLines_cons (hword : '\n' ∉ word) (rest : Text) :
    fileLines (word ++ '\n' :: rest) = (word ++ ['\n']) :: fileLines rest := by
  rw [fileLines, linesFrom_newline hword, List.nil_append]
  rfl

theorem fileLines_last (hne : word ≠ []) (hword : '\n' ∉ word) : fileLines word = [word] := by
  rw [fileLines, linesFrom_rest hword, List.nil_append, if_neg hne]

theorem fileLines_flatMap {lines : List Text} (hlines : ∀ line ∈ lines, '\n' ∉ line) :
    fileLines (lines.flatMap (· ++ ['\n'])) = lines.map (· ++ ['\n']) := by
  induction lines with
  | nil => rfl
  | cons line lines ih =>
      rw [List.forall_mem_cons] at hlines
      rw [List.flatMap_cons, List.append_assoc, List.singleton_append, fileLines_cons hlines.1,
        ih hlines.2, List.map_cons]

theorem isLine_concat (hword : '\n' ∉ word) : IsLine (word ++ ['\n']) := by
  refine ⟨by simp, ?_⟩
  rwa [List.dropLast_concat]

theorem isLine_of_mem {file : Text} : ∀ line ∈ fileLines file, IsLine line := by
  induction file using fileLines_induction with
  | nil => simp [fileLines, linesFrom]
  | last word hne hword =>
      rw [fileLines_last hne hword, List.forall_mem_singleton]
      exact ⟨hne, fun hmem => hword (List.mem_of_mem_dropLast hmem)⟩
  | line word rest hword ih =>
      rw [fileLines_cons hword, List.forall_mem_cons]
      exact ⟨isLine_concat hword, ih⟩

end Lines

section Reads

variable {size room : Nat} {line word rest : Text}

theorem fgetsFrom_newline (size room : Nat) (line word rest : Text) :
    fgetsFrom size room line (word ++ '\n' :: rest) =
      fgetsFrom size room line (word ++ ['\n']) ++ fgetsFrom size (size - 1) [] rest := by
  induction word generalizing room line with
  | nil => simp [fgetsFrom]
  | cons c word ih =>
      rw [List.cons_append, List.cons_append, fgetsFrom, fgetsFrom]
      split
      · rw [ih, List.cons_append]
      · exact ih _ _

theorem fgetsFrom_fileLines (size : Nat) (file : Text) :
    fgetsFrom size (size - 1) [] file =
      (fileLines file).flatMap (fgetsFrom size (size - 1) []) := by
  induction file using fileLines_induction with
  | nil => rfl
  | last word hne hword => rw [fileLines_last hne hword, List.flatMap_singleton]
  | line word rest hword ih =>
      rw [fileLines_cons hword, List.flatMap_cons, fgetsFrom_newline, ih]

@[simp]
theorem flatten_fgetsFrom (size room : Nat) (line file : Text) :
    (fgetsFrom size room line file).flatten = line ++ file := by
  induction file generalizing room line with
  | nil =>
      rw [fgetsFrom]
      split
      · next h => rw [h]; rfl
      · simp
  | cons c file ih =>
      rw [fgetsFrom]
      split
      · rw [List.flatten_cons, ih]
        simp
      · rw [ih]
        simp

theorem length_of_mem_fgetsFrom (hsize : 1 < size) (hroom : 0 < room) {line file : Text}
    (hline : line.length + room = size - 1) :
    ∀ piece ∈ fgetsFrom size room line file, piece.length < size := by
  induction file generalizing room line with
  | nil =>
      rw [fgetsFrom]
      split
      · simp
      · rw [List.forall_mem_singleton]
        omega
  | cons c file ih =>
      rw [fgetsFrom]
      split
      · rw [List.forall_mem_cons, List.length_append, List.length_singleton]
        exact ⟨by omega, ih (by omega) (by simp)⟩
      · next hmore =>
          rw [not_or] at hmore
          refine ih (by omega) ?_
          rw [List.length_append, List.length_singleton]
          omega

theorem fgetsFrom_line_eq (hroom : 0 < room) {line text : Text} (htext : '\n' ∉ text.dropLast)
    (hlong : room < text.length) :
    fgetsFrom size room line text =
      (line ++ text.take room) :: fgetsFrom size (size - 1) [] (text.drop room) := by
  induction text generalizing room line with
  | nil => exact absurd hlong (Nat.not_lt_zero _)
  | cons c text ih =>
      have hne : text ≠ [] := by
        rintro rfl
        rw [List.length_singleton] at hlong
        omega
      rw [List.dropLast_cons_of_ne_nil hne, List.mem_cons, not_or] at htext
      rw [fgetsFrom]
      split
      · next hstop =>
          have hone : room = 1 := by
            rcases hstop with rfl | hle
            · exact absurd rfl htext.1
            · omega
          rw [hone]
          rfl
      · next hmore =>
          rw [not_or, not_le] at hmore
          obtain ⟨room, rfl⟩ := Nat.exists_eq_add_one_of_ne_zero (Nat.ne_of_gt hroom)
          rw [List.length_cons] at hlong
          rw [Nat.add_sub_cancel, ih (by omega) htext.2 (by omega), List.take_succ_cons,
            List.drop_succ_cons, List.append_assoc, List.singleton_append]

theorem fgetsFrom_short {line text : Text} (htext : IsLine text) (hshort : text.length ≤ room) :
    fgetsFrom size room line text = [line ++ text] := by
  obtain ⟨hne, hnewline⟩ := htext
  induction text generalizing room line with
  | nil => exact absurd rfl hne
  | cons c text ih =>
      rw [fgetsFrom]
      rcases eq_or_ne text [] with rfl | htext
      · split
        · rfl
        · simp [fgetsFrom]
      · have hlength : 0 < text.length := List.length_pos_of_ne_nil htext
        rw [List.dropLast_cons_of_ne_nil htext, List.mem_cons, not_or] at hnewline
        rw [List.length_cons] at hshort
        rw [if_neg (by rw [not_or]; exact ⟨Ne.symm hnewline.1, by omega⟩),
          ih (by omega) htext hnewline.2]
        simp

end Reads

end DaapLog.FileLines

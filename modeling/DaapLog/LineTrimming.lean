import DaapLog.ByteBuffers
import DaapLog.Runs
import DaapLog.TableTemplates

/-!
The loop that strips the newline characters of a template line, on the array `line` and
with its indices. It stands in `parseKeyTemplate` and in `parseTableTemplate`, behind the
same test for an empty string.
-/

namespace DaapLog.LineTrimming

open DaapLog.ByteBuffers
open DaapLog.CStrings
open DaapLog.Runs
open DaapLog.TableTemplates

/-- The strings that `fgets` stores, with the characters behind a NUL. -/
def fgetsPieces (file : Text) : List Text := fgetsFrom LINE_LEN (LINE_LEN - 1) [] file

/-- The array behind one `fgets` and the loop, and the indices of the loop. -/
def trimming (line piece : Text) : List Int × Option Text :=
  let line := storeLine piece line
  if stringIn line = [] then ([], some line)
  else
    let r := trimLoop isEol line (stringIn line).length
    (r.1, r.2.map Prod.fst)

/-- One round of the line loop as far as the array is concerned. -/
def trimRound (line piece : Text) : Option (Text × List Int) :=
  (trimming line piece).2.map fun left => (left, (trimming line piece).1)

/-- The loop stays inside the string that was read and strips what it should. -/
structure TrimsInside (line piece : Text) : Prop where
  inside : ∀ i ∈ (trimming line piece).1, 0 ≤ i ∧ i < (stringIn piece).length
  stripped : ∃ left, (trimming line piece).2 = some left ∧
    stringIn left = trimEol (stringIn piece)

/-- Every round that is made over a template. -/
def TemplateTrims (line : Text) (template : Option Text) : Prop :=
  ∀ file, template = some file →
    Throughout trimRound (fun _ => TrimsInside) line (fgetsPieces file)

section Rounds

variable {line piece : Text}

theorem stringIn_storeLine (piece line : Text) :
    stringIn (storeLine piece line) = stringIn piece := by
  obtain ⟨rest, hstore⟩ := storeLine_eq piece line
  rw [hstore, stringIn_append (nul_not_mem_stringIn piece)]

theorem trimming_of_nonempty (line : Text) (hne : stringIn piece ≠ []) :
    ∃ rest, trimming line piece =
      let r := trimLoop isEol (stringIn piece ++ '\x00' :: rest) (stringIn piece).length
      (r.1, r.2.map Prod.fst) := by
  obtain ⟨rest, hstore⟩ := storeLine_eq piece line
  refine ⟨rest, ?_⟩
  rw [trimming]
  dsimp only
  rw [stringIn_storeLine, if_neg hne, hstore]

theorem trimming_of_nil (line : Text) (hnil : stringIn piece = []) :
    trimming line piece = ([], some (storeLine piece line)) := by
  rw [trimming]
  dsimp only
  rw [stringIn_storeLine, if_pos hnil]

theorem trimRound_isSome_iff (line piece : Text) :
    (trimRound line piece).isSome ↔
      stringIn piece = [] ∨ ∃ c ∈ stringIn piece, isEol c = false := by
  rw [trimRound, Option.isSome_map]
  rcases eq_or_ne (stringIn piece) [] with hnil | hne
  · rw [trimming_of_nil line hnil]
    exact iff_of_true rfl (.inl hnil)
  · rw [or_iff_right hne]
    obtain ⟨rest, htrimming⟩ := @trimming_of_nonempty piece line hne
    rw [htrimming]
    dsimp only
    rw [Option.isSome_map]
    constructor
    · intro h
      by_contra hall
      push Not at hall
      have heol : ∀ c ∈ stringIn piece, isEol c = true := fun c hc => by
        simpa using hall c hc
      rw [(trimLoop_of_forall heol rest).2] at h
      exact absurd h (by decide)
    · intro h
      obtain ⟨-, rest', hleft⟩ := trimLoop_of_exists h rest
      rw [hleft]
      rfl

/-- The loop stays inside the string wherever it comes to an end. -/
theorem trimsInside_iff_isSome (line piece : Text) :
    TrimsInside line piece ↔ (trimRound line piece).isSome := by
  constructor
  · intro h
    obtain ⟨left, hleft, -⟩ := h.stripped
    rw [trimRound, hleft]
    rfl
  · intro h
    rcases eq_or_ne (stringIn piece) [] with hnil | hne
    · have htrimming := trimming_of_nil line hnil
      refine ⟨by rw [htrimming]; simp, ⟨storeLine piece line, by rw [htrimming], ?_⟩⟩
      rw [stringIn_storeLine, hnil]
      rfl
    · obtain ⟨rest, htrimming⟩ := @trimming_of_nonempty piece line hne
      have hexists := ((trimRound_isSome_iff line piece).mp h).resolve_left hne
      obtain ⟨hindices, rest', hleft⟩ := trimLoop_of_exists hexists rest
      refine ⟨by rw [htrimming]; exact hindices,
        ⟨trimEol (stringIn piece) ++ '\x00' :: rest', ?_, ?_⟩⟩
      · rw [htrimming]
        dsimp only
        rw [hleft]
        rfl
      · refine stringIn_append (fun hnul => nul_not_mem_stringIn piece ?_) rest'
        exact (List.rdropWhile_prefix isEol _).subset hnul

theorem run_trimRound_isSome_iff (line : Text) (pieces : List Text) :
    (run trimRound line pieces).isSome ↔
      Throughout trimRound (fun _ => TrimsInside) line pieces := by
  rw [run_isSome_iff]
  exact throughout_congr fun line piece => (trimsInside_iff_isSome line piece).symm

theorem throughout_trimsInside_iff (line : Text) (pieces : List Text) :
    Throughout trimRound (fun _ => TrimsInside) line pieces ↔
      ∀ piece ∈ pieces, stringIn piece = [] ∨ ∃ c ∈ stringIn piece, isEol c = false := by
  induction pieces generalizing line with
  | nil => exact iff_of_true throughout_nil (by simp)
  | cons piece pieces ih =>
      rw [throughout_cons, List.forall_mem_cons, trimsInside_iff_isSome, ← trimRound_isSome_iff line]
      constructor
      · rintro ⟨hfirst, hrest⟩
        obtain ⟨r, hround⟩ := Option.isSome_iff_exists.mp hfirst
        exact ⟨hfirst, (ih r.1).mp (hrest r hround)⟩
      · rintro ⟨hfirst, hrest⟩
        exact ⟨hfirst, fun r _ => (ih r.1).mpr hrest⟩

end Rounds

/-- The loops stay inside the lines of both templates exactly if no string that `fgets`
delivers is made of newlines and carriage returns only. -/
theorem templateTrims_iff (line line' : Text) (key_template table_template : Option Text) :
    TemplateTrims line key_template ∧ TemplateTrims line' table_template ↔
      ∀ file, key_template = some file ∨ table_template = some file →
        ∀ piece ∈ fgetsLines LINE_LEN file, piece = [] ∨ ∃ c ∈ piece, isEol c = false := by
  have hfile (line file : Text) : Throughout trimRound (fun _ => TrimsInside) line
      (fgetsPieces file) ↔
        ∀ piece ∈ fgetsLines LINE_LEN file, piece = [] ∨ ∃ c ∈ piece, isEol c = false := by
    rw [throughout_trimsInside_iff, fgetsLines, List.forall_mem_map]
    rfl
  constructor
  · rintro ⟨hkey, htable⟩ file (hfile_eq | hfile_eq)
    · exact (hfile line file).mp (hkey file hfile_eq)
    · exact (hfile line' file).mp (htable file hfile_eq)
  · intro h
    exact ⟨fun file hfile_eq => (hfile line file).mpr (h file (.inl hfile_eq)),
      fun file hfile_eq => (hfile line' file).mpr (h file (.inr hfile_eq))⟩

/-- On a blank line the loop reads the byte in front of the array. -/
theorem templateTrims_fails_on_blank :
    ¬TemplateTrims (List.replicate LINE_LEN '\x00') (some "a\n\nb\n".toList) := by
  intro h
  have hpieces : fgetsPieces "a\n\nb\n".toList = ["a\n".toList, "\n".toList, "b\n".toList] := by
    simp [fgetsPieces, fgetsFrom, LINE_LEN]
  have hrun := h "a\n\nb\n".toList rfl
  rw [hpieces, throughout_trimsInside_iff] at hrun
  have hblank := hrun "\n".toList (by simp)
  simp [stringIn, isEol] at hblank

end DaapLog.LineTrimming

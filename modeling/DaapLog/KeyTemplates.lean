import DaapLog.TableTemplates

/-!
The key template of the results parser: `parseKeyTemplate` with its calls of
`pcre_compile` and the indices at which it stores the results. The array of the regexes
is a list here, which has no end.
-/

namespace DaapLog.KeyTemplates

open DaapLog.CStrings
open DaapLog.TableTemplates

def MAX_KEY_REGEXES : Nat := 1000

inductive KeyEvent
  | pcre_compile (pattern : Text)
  | store (index : Nat)
  deriving DecidableEq

def KeyEvent.pattern? : KeyEvent → Option Text
  | pcre_compile pattern => some pattern
  | store _ => none

def KeyEvent.index? : KeyEvent → Option Nat
  | pcre_compile _ => none
  | store index => some index

/-- The patterns of the lines as the loop sees them. -/
def patterns (lines : List Text) : List Text := (lines.map trimEol).filter (· ≠ [])

variable {ρ : Type*}

/-- One round of the line loop. A regex that cannot be compiled is left out. -/
def keyLine (pcre_compile : Text → Option ρ) (key_regexes : List ρ) (line : Text) :
    List ρ × List KeyEvent :=
  if line = [] then (key_regexes, [])
  else
    let line := trimEol line
    if line = [] then (key_regexes, [])
    else
      match pcre_compile line with
      | none => (key_regexes, [.pcre_compile line])
      | some re => (key_regexes ++ [re], [.pcre_compile line, .store key_regexes.length])

def keyLines (pcre_compile : Text → Option ρ) : List ρ → List Text → List ρ × List KeyEvent
  | key_regexes, [] => (key_regexes, [])
  | key_regexes, line :: rest =>
      let r := keyLine pcre_compile key_regexes line
      let r' := keyLines pcre_compile r.1 rest
      (r'.1, r.2 ++ r'.2)

/-- Result, regexes and events of `parseKeyTemplate`, for a file that cannot be opened or
for its content. -/
def parseKeyTemplate (pcre_compile : Text → Option ρ) (key_template : Option Text) :
    Int × List ρ × List KeyEvent :=
  match key_template with
  | none => (-1, [], [])
  | some file => (0, keyLines pcre_compile [] (fgetsLines LINE_LEN file))

theorem patterns_cons (line : Text) (lines : List Text) :
    patterns (line :: lines) =
      if trimEol line = [] then patterns lines else trimEol line :: patterns lines := by
  rw [patterns, List.map_cons, List.filter_cons]
  by_cases h : trimEol line = []
  · rw [if_neg (by simpa using h), if_pos h]
    rfl
  · rw [if_pos (by simpa using h), if_neg h]
    rfl

theorem keyLine_eq (pcre_compile : Text → Option ρ) (key_regexes : List ρ) (line : Text) :
    keyLine pcre_compile key_regexes line =
      if trimEol line = [] then (key_regexes, [])
      else
        match pcre_compile (trimEol line) with
        | none => (key_regexes, [.pcre_compile (trimEol line)])
        | some re =>
            (key_regexes ++ [re], [.pcre_compile (trimEol line), .store key_regexes.length]) := by
  rw [keyLine]
  split
  · next h =>
      rw [h]
      rfl
  · rfl

/-- Every pattern is compiled once, in order, and what comes out is stored one after the
other. -/
theorem keyLines_eq (pcre_compile : Text → Option ρ) (key_regexes : List ρ) (lines : List Text) :
    (keyLines pcre_compile key_regexes lines).1 =
        key_regexes ++ (patterns lines).filterMap pcre_compile ∧
      (keyLines pcre_compile key_regexes lines).2.filterMap KeyEvent.pattern? = patterns lines ∧
      (keyLines pcre_compile key_regexes lines).2.filterMap KeyEvent.index? =
        List.range' key_regexes.length ((patterns lines).filterMap pcre_compile).length := by
  induction lines generalizing key_regexes with
  | nil => exact ⟨(List.append_nil _).symm, rfl, rfl⟩
  | cons line lines ih =>
      rw [keyLines, keyLine_eq, patterns_cons]
      by_cases hnil : trimEol line = []
      · rw [if_pos hnil, if_pos hnil]
        exact ih key_regexes
      · rw [if_neg hnil, if_neg hnil, List.filterMap_cons]
        cases hcompile : pcre_compile (trimEol line) with
        | none =>
            obtain ⟨hregexes, hpatterns, hindices⟩ := ih key_regexes
            exact ⟨hregexes, congrArg (trimEol line :: ·) hpatterns, hindices⟩
        | some re =>
            obtain ⟨hregexes, hpatterns, hindices⟩ := ih (key_regexes ++ [re])
            refine ⟨?_, congrArg (trimEol line :: ·) hpatterns, ?_⟩
            · dsimp only
              rw [hregexes, List.append_assoc]
              rfl
            · rw [List.length_append, List.length_singleton] at hindices
              rw [List.length_cons, List.range'_succ]
              exact congrArg (key_regexes.length :: ·) hindices

end DaapLog.KeyTemplates

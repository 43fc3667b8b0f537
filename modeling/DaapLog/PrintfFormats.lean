import DaapLog.CStrings

/-!
Formats of the `printf` family, for any program that prints with them. A directive prints
a `%` or converts the next argument; flags, widths and precisions are left out.
-/

namespace DaapLog.PrintfFormats

open DaapLog.CStrings

inductive Arg
  | str (text : Text)
  | int (value : Int)
  deriving DecidableEq

def convert : Char → Arg → Option Text
  | 's', .str text => some text
  | 'd', .int value => some (decimal value)
  | _, _ => none

/-- The text that a format prints. Without an argument of the right type for a directive
the behaviour is undefined; arguments that are left over are ignored. -/
def printf : Text → List Arg → Option Text
  | [], _ => some []
  | c :: rest, args =>
      if c = '%' then
        match rest, args with
        | [], _ => none
        | '%' :: rest, args => (printf rest args).map ('%' :: ·)
        | _ :: _, [] => none
        | d :: rest, arg :: args =>
            (convert d arg).bind fun text => (printf rest args).map (text ++ ·)
      else (printf rest args).map (c :: ·)

/-- A text with every `%` doubled. -/
def escaped (text : Text) : Text := text.flatMap fun c => if c = '%' then ['%', '%'] else [c]

section Directives

variable (rest : Text) (args : List Arg)

@[simp]
theorem printf_nil : printf [] args = some [] := by
  rw [printf]

theorem printf_cons {c : Char} (h : c ≠ '%') :
    printf (c :: rest) args = (printf rest args).map (c :: ·) := by
  rw [printf.eq_def]
  exact if_neg h

@[simp]
theorem printf_percent :
    printf ('%' :: '%' :: rest) args = (printf rest args).map ('%' :: ·) := by
  rw [printf.eq_def]
  exact if_pos rfl

@[simp]
theorem printf_str (text : Text) :
    printf ('%' :: 's' :: rest) (.str text :: args) = (printf rest args).map (text ++ ·) := by
  rw [printf.eq_def]
  exact if_pos rfl

theorem printf_noArg {d : Char} (h : d ≠ '%') : printf ('%' :: d :: rest) [] = none := by
  rw [printf.eq_def]
  refine (if_pos rfl).trans ?_
  split
  · rfl
  · next hrest => exact absurd (List.cons.inj hrest).1 h
  · rfl
  · next hargs => exact absurd hargs nofun

end Directives

theorem escaped_cons (c : Char) (text : Text) :
    escaped (c :: text) = (if c = '%' then ['%', '%'] else [c]) ++ escaped text :=
  List.flatMap_cons

theorem length_le_escaped (text : Text) : text.length ≤ (escaped text).length := by
  induction text with
  | nil => exact le_rfl
  | cons c text ih =>
      rw [escaped_cons, List.length_append, List.length_cons]
      split
      · rw [List.length_cons, List.length_singleton]
        omega
      · rw [List.length_singleton]
        omega

@[simp]
theorem escaped_eq_self_iff {text : Text} : escaped text = text ↔ '%' ∉ text := by
  induction text with
  | nil => exact iff_of_true rfl List.not_mem_nil
  | cons c text ih =>
      rw [escaped_cons, List.mem_cons, not_or, ← ih]
      by_cases hc : c = '%'
      · rw [if_pos hc]
        refine iff_of_false (fun h => ?_) fun h => h.1 hc.symm
        have hlength := congrArg List.length h
        have hle := length_le_escaped text
        simp only [List.length_append, List.length_cons, List.length_nil] at hlength
        omega
      · rw [if_neg hc, List.singleton_append, List.cons.injEq]
        exact ⟨fun h => ⟨Ne.symm hc, h.2⟩, fun h => ⟨rfl, h.2⟩⟩

@[simp]
theorem printf_escaped (text : Text) (args : List Arg) :
    printf (escaped text) args = some text := by
  induction text with
  | nil => exact printf_nil args
  | cons c text ih =>
      rw [escaped_cons]
      split
      · next hc =>
          rw [List.cons_append, List.cons_append, List.nil_append, printf_percent, ih, hc]
          rfl
      · next hc =>
          rw [List.singleton_append, printf_cons _ _ hc, ih]
          rfl

theorem printf_of_not_mem {format : Text} (h : '%' ∉ format) (args : List Arg) :
    printf format args = some format := by
  have hprint := printf_escaped format args
  rwa [escaped_eq_self_iff.mpr h] at hprint

/-- Without arguments a format prints a text only if it is that text escaped. -/
theorem printf_noArgs_iff {format text : Text} :
    printf format [] = some text ↔ format = escaped text := by
  refine ⟨fun h => ?_, fun h => h ▸ printf_escaped text []⟩
  induction format using List.twoStepInduction generalizing text with
  | nil =>
      rw [printf_nil] at h
      rw [← Option.some.inj h]
      rfl
  | singleton c =>
      by_cases hc : c = '%'
      · rw [hc] at h
        exact absurd h nofun
      · rw [printf_cons _ _ hc, printf_nil] at h
        rw [← Option.some.inj h, escaped_cons, if_neg hc]
        rfl
  | cons_cons c d rest ihrest ih =>
      by_cases hc : c = '%'
      · by_cases hd : d = '%'
        · rw [hc, hd, printf_percent] at h
          obtain ⟨tail, htail, rfl⟩ := Option.map_eq_some_iff.mp h
          rw [escaped_cons, if_pos rfl, hc, hd, ihrest htail]
          rfl
        · rw [hc, printf_noArg rest hd] at h
          exact absurd h nofun
      · rw [printf_cons _ _ hc] at h
        obtain ⟨tail, htail, rfl⟩ := Option.map_eq_some_iff.mp h
        rw [escaped_cons, if_neg hc, ih d htail]
        rfl

end DaapLog.PrintfFormats

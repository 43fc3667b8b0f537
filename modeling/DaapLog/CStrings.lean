import Mathlib

/-!
C strings and the functions of the C library on them, for any program that works
on strings of bounded buffers. A string is the list of the characters in front
of its terminating NUL, one character for each byte.
-/

namespace DaapLog.CStrings

abbrev Text := List Char

instance : Coe String Text := ⟨String.toList⟩

/-- The string left in a buffer by `snprintf(buffer, size, ..)` when the whole
formatted text is `formatted` and the buffer held `old`. With `size = 0` nothing
is written. -/
def snprintf (size : Nat) (old formatted : Text) : Text :=
  if size = 0 then old else formatted.take (size - 1)

theorem snprintf_pos {size : Nat} (hsize : 0 < size) (old formatted : Text) :
    snprintf size old formatted = formatted.take (size - 1) := by
  simp [snprintf, Nat.ne_of_gt hsize]

theorem snprintf_eq_self_iff {size : Nat} (hsize : 0 < size) (old formatted : Text) :
    snprintf size old formatted = formatted ↔ formatted.length < size := by
  rw [snprintf_pos hsize, List.take_eq_self_iff]
  omega

/-- `strstr(hay, needle) != NULL`. -/
def strstr (hay needle : Text) : Bool := decide (needle <:+: hay)

/-- The string in a zeroed buffer after `strncpy(buffer, src, n)` when it held
`old` before. No NUL is written when `src` has at least `n` characters. -/
def strncpy (n : Nat) (old src : Text) : Text :=
  if src.length < n then src else src.take n ++ old.drop n

/-- The strings that `strtok(text, delims)` and the calls that follow it return. -/
def strtok (delims text : Text) : List Text :=
  (text.splitOnP fun c => decide (c ∈ delims)).filter (· ≠ [])

/-- The string that is left in the buffer by then: `strtok` ends its first token
with a NUL. -/
def strtokRest (delims text : Text) : Text :=
  text.takeWhile (fun c => decide (c ∈ delims)) ++
    (text.dropWhile fun c => decide (c ∈ delims)).takeWhile fun c => decide (c ∉ delims)

/-- The strings that successive calls `fgets(line, size, file)` store, for what is
left of the line being read and of the room for it. -/
def fgetsFrom (size : Nat) : Nat → Text → Text → List Text
  | _, line, [] => if line = [] then [] else [line]
  | room, line, c :: rest =>
      if c = '\n' ∨ room ≤ 1 then (line ++ [c]) :: fgetsFrom size (size - 1) [] rest
      else fgetsFrom size (room - 1) (line ++ [c]) rest

/-- The lines of a file as a loop over `fgets` sees them: at most `size - 1`
characters, cut at the first NUL. -/
def fgetsLines (size : Nat) (file : Text) : List Text :=
  (fgetsFrom size (size - 1) [] file).map (·.takeWhile (· ≠ '\x00'))

def isspace (c : Char) : Bool :=
  c == ' ' || c == '\t' || c == '\n' || c == '\x0b' || c == '\x0c' || c == '\r'

/-- `atoi`, the conversion to `int` of what `strtol` returns. -/
def atoi (text : Text) : Int :=
  let digits (t : Text) : Int := Nat.ofDigitChars 10 (t.takeWhile Char.isDigit) 0
  let value :=
    match text.dropWhile isspace with
    | '-' :: rest => -digits rest
    | '+' :: rest => digits rest
    | rest => digits rest
  (max (-2 ^ 63) (min value (2 ^ 63 - 1))).bmod (2 ^ 32)

/-- The conversions `%d`, `%ld` and `%lld`. -/
def decimal : Int → Text
  | .ofNat n => Nat.toDigits 10 n
  | .negSucc n => '-' :: Nat.toDigits 10 (n + 1)

/-- Conversion of a mathematical integer to a signed 64-bit one. -/
def toInt64 (x : Int) : Int := x.bmod (2 ^ 64)

/-- Conversion of a mathematical integer to `size_t`. -/
def toSize (x : Int) : Nat := (x % 2 ^ 64).toNat

theorem toSize_natCast {n : Nat} (h : n < 2 ^ 64) : toSize n = n := by
  simp only [toSize]
  omega

theorem toInt64_eq_self_iff (x : Int) : toInt64 x = x ↔ -2 ^ 63 ≤ x ∧ x < 2 ^ 63 := by
  unfold toInt64
  constructor
  · intro h
    have hlow := @Int.le_bmod x (2 ^ 64) (by norm_num)
    have hhigh := @Int.bmod_lt x (2 ^ 64) (by norm_num)
    omega
  · rintro ⟨hlow, hhigh⟩
    exact Int.bmod_eq_of_le (by omega) (by omega)

@[simp]
theorem decimal_ne_nil (x : Int) : decimal x ≠ [] := by
  cases x with
  | ofNat n => exact Nat.toDigits_ne_nil
  | negSucc n => exact List.cons_ne_nil _ _

theorem isDigit_of_mem_toDigits {n : Nat} {c : Char} (h : c ∈ Nat.toDigits 10 n) : c.isDigit :=
  Nat.isDigit_of_mem_toDigits (by norm_num) le_rfl h

@[simp]
theorem dash_not_mem_toDigits (n : Nat) : '-' ∉ Nat.toDigits 10 n := by
  intro h
  exact absurd (isDigit_of_mem_toDigits h) (by decide)

theorem mem_decimal {x : Int} {c : Char} (h : c ∈ decimal x) : c.isDigit ∨ c = '-' := by
  cases x with
  | ofNat n => exact Or.inl (isDigit_of_mem_toDigits h)
  | negSucc n =>
      rcases List.mem_cons.mp h with rfl | h
      · exact Or.inr rfl
      · exact Or.inl (isDigit_of_mem_toDigits h)

theorem toDigits_injective : Function.Injective (Nat.toDigits 10) :=
  Function.LeftInverse.injective (g := fun digits => Nat.ofDigitChars 10 digits 0)
    fun _ => Nat.ofDigitChars_ten_toDigits

theorem length_toDigits_mono {m n : Nat} (h : m ≤ n) :
    (Nat.toDigits 10 m).length ≤ (Nat.toDigits 10 n).length := by
  rw [Nat.length_toDigits_le_iff (by norm_num) Nat.length_toDigits_pos]
  refine lt_of_le_of_lt h ?_
  exact (Nat.length_toDigits_le_iff (by norm_num) Nat.length_toDigits_pos).mp le_rfl

/-- A printed number that starts another one is not larger. -/
theorem le_of_toDigits_prefix {m n : Nat} (h : Nat.toDigits 10 m <+: Nat.toDigits 10 n) :
    m ≤ n := by
  by_contra hlt
  have hlen := length_toDigits_mono (show n ≤ m by omega)
  exact hlt (le_of_eq (toDigits_injective (h.eq_of_length_le hlen)))

theorem natAbs_le_of_decimal_prefix {x y : Int} (h : decimal x <+: decimal y) :
    x.natAbs ≤ y.natAbs ∧ (0 ≤ x ↔ 0 ≤ y) := by
  cases x with
  | ofNat m =>
      cases y with
      | ofNat n => simpa [Int.ofNat_eq_natCast] using le_of_toDigits_prefix h
      | negSucc n =>
          obtain ⟨c, rest, hdigits⟩ := List.exists_cons_of_ne_nil (@Nat.toDigits_ne_nil m 10)
          simp only [decimal, hdigits, List.cons_prefix_cons] at h
          exact absurd (h.1 ▸ hdigits ▸ List.mem_cons_self) (dash_not_mem_toDigits m)
  | negSucc m =>
      cases y with
      | ofNat n =>
          exact absurd (h.subset List.mem_cons_self) (dash_not_mem_toDigits n)
      | negSucc n =>
          simp only [decimal, List.cons_prefix_cons, true_and] at h
          have hle := le_of_toDigits_prefix h
          exact ⟨hle, by omega⟩

theorem decimal_injective : Function.Injective decimal := by
  intro x y h
  cases x with
  | ofNat m =>
      cases y with
      | ofNat n => exact congrArg Int.ofNat (toDigits_injective h)
      | negSucc n =>
          have hdash : '-' ∈ decimal (Int.ofNat m) := by
            rw [h]
            exact List.mem_cons_self
          exact absurd hdash (dash_not_mem_toDigits m)
  | negSucc m =>
      cases y with
      | ofNat n =>
          have hdash : '-' ∈ decimal (Int.ofNat n) := by
            rw [← h]
            exact List.mem_cons_self
          exact absurd hdash (dash_not_mem_toDigits n)
      | negSucc n =>
          simp only [decimal, List.cons.injEq, true_and] at h
          rw [Nat.succ.inj (toDigits_injective h)]

@[simp]
theorem takeWhile_isDigit_toDigits (n : Nat) :
    (Nat.toDigits 10 n).takeWhile Char.isDigit = Nat.toDigits 10 n :=
  List.takeWhile_eq_self_iff.mpr fun _ hc => isDigit_of_mem_toDigits hc

/-- Decimal printing and `atoi` are inverse on the range of `int`. -/
theorem atoi_decimal {x : Int} (hlow : -2 ^ 31 ≤ x) (hhigh : x < 2 ^ 31) :
    atoi (decimal x) = x := by
  have hwrap : (max (-2 ^ 63) (min x (2 ^ 63 - 1))).bmod (2 ^ 32) = x := by
    rw [min_eq_left (by omega), max_eq_right (by omega)]
    exact Int.bmod_eq_of_le (by omega) (by omega)
  cases x with
  | ofNat n =>
      obtain ⟨c, rest, hdigits⟩ := List.exists_cons_of_ne_nil (@Nat.toDigits_ne_nil n 10)
      have hc : c.isDigit := isDigit_of_mem_toDigits (n := n) (by simp [hdigits])
      have hspace : (Nat.toDigits 10 n).dropWhile isspace = Nat.toDigits 10 n := by
        rw [hdigits, List.dropWhile_cons_of_neg]
        intro h
        simp only [isspace, Bool.or_eq_true, beq_iff_eq] at h
        rcases h with ((((rfl | rfl) | rfl) | rfl) | rfl) | rfl <;> exact absurd hc (by decide)
      have hdash : c ≠ '-' ∧ c ≠ '+' := by
        constructor <;> rintro rfl <;> exact absurd hc (by decide)
      have hvalue := takeWhile_isDigit_toDigits n
      rw [hdigits] at hvalue
      simp only [atoi, decimal, hspace]
      rw [hdigits]
      split
      · simp_all
      · simp_all
      · rw [hvalue, ← hdigits, Nat.ofDigitChars_ten_toDigits]
        exact hwrap
  | negSucc n =>
      have hspace : ('-' :: Nat.toDigits 10 (n + 1)).dropWhile isspace =
          '-' :: Nat.toDigits 10 (n + 1) :=
        List.dropWhile_cons_of_neg (by decide)
      simp only [atoi, decimal, hspace, takeWhile_isDigit_toDigits,
        Nat.ofDigitChars_ten_toDigits]
      exact hwrap

theorem infix_append_cases {α : Type*} {word front back : List α}
    (h : word <:+: front ++ back) :
    word <:+: front ∨ word <:+: back ∨
      ∃ a b, word = a ++ b ∧ a ≠ [] ∧ b ≠ [] ∧ a <:+ front ∧ b <+: back := by
  obtain ⟨s, t, hst⟩ := h
  rcases List.append_eq_append_iff.mp hst with ⟨m, rfl, -⟩ | ⟨m, hword, rfl⟩
  · exact Or.inl ⟨s, m, rfl⟩
  · rcases List.append_eq_append_iff.mp hword with ⟨k, rfl, rfl⟩ | ⟨k, rfl, rfl⟩
    · rcases k with _ | ⟨c, k⟩
      · exact Or.inr (Or.inl ⟨[], t, rfl⟩)
      · rcases m with _ | ⟨d, m⟩
        · exact Or.inl ⟨s, [], by simp⟩
        · exact Or.inr (Or.inr ⟨c :: k, d :: m, rfl, by simp, by simp, ⟨s, rfl⟩, ⟨t, rfl⟩⟩)
    · exact Or.inr (Or.inl ⟨k, t, rfl⟩)

theorem fgetsFrom_line (size room : Nat) (line : Text) {rest : Text} (file : Text)
    (hline : '\n' ∉ rest) (hroom : rest.length < room) :
    fgetsFrom size room line (rest ++ '\n' :: file) =
      (line ++ rest ++ ['\n']) :: fgetsFrom size (size - 1) [] file := by
  induction rest generalizing room line with
  | nil => simp [fgetsFrom]
  | cons c rest ih =>
      simp only [List.mem_cons, not_or, List.length_cons] at hline hroom
      rw [List.cons_append, fgetsFrom, if_neg, ih _ _ hline.2 (by omega)]
      · simp
      · rintro (rfl | hle)
        · exact hline.1 rfl
        · omega

theorem fgetsLines_flatMap {size : Nat} {lines : List Text}
    (h : ∀ line ∈ lines, '\n' ∉ line ∧ '\x00' ∉ line ∧ line.length + 1 < size) :
    fgetsLines size (lines.flatMap (· ++ ['\n'])) = lines.map (· ++ ['\n']) := by
  induction lines with
  | nil => simp [fgetsLines, fgetsFrom]
  | cons line lines ih =>
      obtain ⟨⟨hnewline, hnul, hlength⟩, hlines⟩ := List.forall_mem_cons.mp h
      have hcut : (line ++ ['\n']).takeWhile (· ≠ '\x00') = line ++ ['\n'] := by
        refine List.takeWhile_eq_self_iff.mpr fun c hc => ?_
        rcases List.mem_append.mp hc with hc | hc
        · rw [decide_eq_true_eq]
          rintro rfl
          exact hnul hc
        · obtain rfl := List.mem_singleton.mp hc
          decide
      have hread := fgetsFrom_line size (size - 1) [] (lines.flatMap (· ++ ['\n'])) hnewline
        (by omega)
      rw [List.flatMap_cons, fgetsLines, List.append_assoc, List.singleton_append, hread,
        List.map_cons, List.nil_append, hcut, List.map_cons]
      exact congrArg _ (ih hlines)

end DaapLog.CStrings

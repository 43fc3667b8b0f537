import DaapLog.CStrings

/-!
String methods of Ruby for any program that takes texts apart with them.
-/

namespace DaapLog.RubyStrings

open DaapLog.CStrings

/-- `text.split(sep)` for one character: empty pieces at the end are dropped. -/
def split (sep : Char) (text : Text) : List Text :=
  (text.splitOn sep).rdropWhile (· = [])

/-- `text.split(' ')`. -/
def words (text : Text) : List Text := (text.splitOnP isspace).filter (· ≠ [])

/-- The characters that `strip` takes away. -/
def isBlank (c : Char) : Bool := isspace c || c == '\x00'

def strip (text : Text) : Text := (text.dropWhile isBlank).rdropWhile isBlank

/-- Digits at the start of a text, with single underscores between them. -/
def leadingDigits : Bool → Text → Text
  | _, [] => []
  | behindDigit, c :: rest =>
      if c.isDigit then c :: leadingDigits true rest
      else if behindDigit && c == '_' && rest.head?.any Char.isDigit then leadingDigits false rest
      else []

/-- The prefix of a decimal number is skipped. -/
def skipPrefix : Text → Text
  | '0' :: 'd' :: rest => rest
  | '0' :: 'D' :: rest => rest
  | text => text

/-- `text.to_i`. -/
def to_i (text : Text) : Int :=
  let digits (t : Text) : Int := Nat.ofDigitChars 10 (leadingDigits false (skipPrefix t)) 0
  match text.dropWhile isspace with
  | '-' :: rest => -digits rest
  | '+' :: rest => digits rest
  | rest => digits rest

/-- `k, v = item.split('=')` with `v.strip!()`, which fails if there is no `v`. -/
def splitItem (item : Text) : Option (Text × Text) :=
  match split '=' item with
  | k :: v :: _ => some (k, strip v)
  | _ => none

/-- Some character other than `=` stands behind the first `=`. -/
def HasValue (item : Text) : Prop :=
  ∃ front back, item = front ++ '=' :: back ∧ '=' ∉ front ∧ ∃ c ∈ back, c ≠ '='

theorem forall_splitOn_eq_nil_iff (sep : Char) (text : Text) :
    (∀ piece ∈ text.splitOn sep, piece = []) ↔ ∀ c ∈ text, c = sep := by
  induction text with
  | nil => simp
  | cons c text ih =>
      rw [List.splitOn_cons_eq_if_modifyHead, List.forall_mem_cons, ← ih]
      by_cases hc : c = sep
      · simp [hc]
      · obtain ⟨piece, pieces, hsplit⟩ :=
          List.exists_cons_of_ne_nil (List.splitOn_ne_nil sep text)
        simp [hc, hsplit]

theorem rdropWhile_cons {α : Type*} (p : α → Bool) (a : α) (l : List α) :
    (a :: l).rdropWhile p =
      if l.rdropWhile p = [] then [a].rdropWhile p else a :: l.rdropWhile p := by
  rw [List.rdropWhile, List.rdropWhile, List.rdropWhile, List.reverse_cons, List.dropWhile_append]
  by_cases h : l.reverse.dropWhile p = [] <;> simp [h]

theorem hasValue_append {front back : Text} (hfront : '=' ∉ front) :
    HasValue (front ++ '=' :: back) ↔ ∃ c ∈ back, c ≠ '=' := by
  constructor
  · rintro ⟨front', back', hitem, hfront', hvalue⟩
    suffices hback : back = back' by rwa [hback]
    rcases List.append_eq_append_iff.mp hitem with ⟨m, rfl, h⟩ | ⟨m, rfl, h⟩
    · rcases m with _ | ⟨c, m⟩
      · exact (List.cons.inj h).2
      · exact absurd (by simp [← (List.cons.inj h).1]) hfront'
    · rcases m with _ | ⟨c, m⟩
      · exact (List.cons.inj h).2.symm
      · exact absurd (by simp [← (List.cons.inj h).1]) hfront
  · intro hvalue
    exact ⟨front, back, rfl, hfront, hvalue⟩

theorem splitItem_isSome_iff (item : Text) : (splitItem item).isSome ↔ HasValue item := by
  by_cases heq : '=' ∈ item
  · obtain ⟨front, back, rfl, hfront⟩ := List.eq_append_cons_of_mem heq
    rw [hasValue_append hfront, splitItem, split,
      List.splitOn_append_cons_self_of_not_mem hfront, rdropWhile_cons]
    have hblank := forall_splitOn_eq_nil_iff '=' back
    by_cases hvalue : ∃ c ∈ back, c ≠ '='
    · have hne : (back.splitOn '=').rdropWhile (· = []) ≠ [] := by
        intro hnil
        rw [List.rdropWhile_eq_nil_iff] at hnil
        obtain ⟨c, hc, hcne⟩ := hvalue
        exact hcne (hblank.mp (fun piece hpiece => of_decide_eq_true (hnil piece hpiece)) c hc)
      obtain ⟨v, rest, hpieces⟩ := List.exists_cons_of_ne_nil hne
      rw [if_neg hne, hpieces]
      exact iff_of_true rfl hvalue
    · have hnil : (back.splitOn '=').rdropWhile (· = []) = [] := by
        rw [List.rdropWhile_eq_nil_iff]
        intro piece hpiece
        refine decide_eq_true (hblank.mpr (fun c hc => ?_) piece hpiece)
        by_contra hne
        exact hvalue ⟨c, hc, hne⟩
      rw [if_pos hnil]
      refine iff_of_false ?_ hvalue
      by_cases hfront : front = [] <;> simp [hfront, List.rdropWhile]
  · have hsplit : item.splitOn '=' = [item] := List.splitOn_eq_singleton heq
    have hnone : splitItem item = none := by
      rw [splitItem, split, hsplit, rdropWhile_cons]
      by_cases hitem : item = [] <;> simp [hitem, List.rdropWhile]
    rw [hnone]
    refine iff_of_false (by simp) ?_
    rintro ⟨front, back, rfl, -⟩
    exact heq (by simp)

section Numbers

theorem leadingDigits_of_digits {text : Text} (h : ∀ c ∈ text, c.isDigit) (behindDigit : Bool) :
    leadingDigits behindDigit text = text := by
  induction text generalizing behindDigit with
  | nil => rfl
  | cons c text ih =>
      rw [List.forall_mem_cons] at h
      rw [leadingDigits, if_pos h.1, ih h.2]

theorem skipPrefix_of_digits {text : Text} (h : ∀ c ∈ text, c.isDigit) :
    skipPrefix text = text := by
  have hsecond (c : Char) (rest : Text) (hrest : text = '0' :: c :: rest) : c.isDigit :=
    h c (hrest ▸ List.mem_cons_of_mem _ List.mem_cons_self)
  unfold skipPrefix
  split
  · next rest => exact absurd (hsecond 'd' rest rfl) (by decide)
  · next rest => exact absurd (hsecond 'D' rest rfl) (by decide)
  · rfl

theorem isspace_of_isDigit {c : Char} (h : c.isDigit) : isspace c = false := by
  rw [← Bool.not_eq_true]
  intro hspace
  simp only [isspace, Bool.or_eq_true, beq_iff_eq] at hspace
  rcases hspace with ((((rfl | rfl) | rfl) | rfl) | rfl) | rfl <;> exact absurd h (by decide)

theorem to_i_digits {digits : Text} (hne : digits ≠ []) (hdigits : ∀ c ∈ digits, c.isDigit) :
    to_i digits = Nat.ofDigitChars 10 digits 0 := by
  obtain ⟨c, rest, rfl⟩ := List.exists_cons_of_ne_nil hne
  have hdigit : c.isDigit := hdigits c List.mem_cons_self
  rw [to_i, List.dropWhile_cons_of_neg (by simp [isspace_of_isDigit hdigit])]
  split
  · next heq =>
      obtain ⟨rfl, -⟩ := List.cons.inj heq
      exact absurd hdigit (by decide)
  · next heq =>
      obtain ⟨rfl, -⟩ := List.cons.inj heq
      exact absurd hdigit (by decide)
  · dsimp only
    rw [skipPrefix_of_digits hdigits, leadingDigits_of_digits hdigits]

@[simp]
theorem to_i_decimal (x : Int) : to_i (decimal x) = x := by
  have hdigits (n : Nat) : ∀ c ∈ Nat.toDigits 10 n, c.isDigit := fun _ => isDigit_of_mem_toDigits
  have hvalue (n : Nat) : (Nat.ofDigitChars 10 (Nat.toDigits 10 n) 0 : Int) = n :=
    congrArg Nat.cast Nat.ofDigitChars_ten_toDigits
  cases x with
  | ofNat n => exact (to_i_digits Nat.toDigits_ne_nil (hdigits n)).trans (hvalue n)
  | negSucc n =>
      have htext := hvalue (n + 1)
      rw [← leadingDigits_of_digits (hdigits (n + 1)) false,
        ← skipPrefix_of_digits (hdigits (n + 1))] at htext
      rw [to_i, decimal, List.dropWhile_cons_of_neg (by decide)]
      exact congrArg Neg.neg htext

end Numbers

end DaapLog.RubyStrings

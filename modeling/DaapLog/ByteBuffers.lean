import DaapLog.CStrings

/-!
Buffers of bytes: the string at the start of a buffer, and the loop that cuts characters
off the end of a string by writing NULs from its last index downwards.
-/

namespace DaapLog.ByteBuffers

open DaapLog.CStrings

/-- The string in a buffer that has a NUL somewhere. -/
def stringIn (buf : Text) : Text := buf.takeWhile (· ≠ '\x00')

/-- A buffer holds a string with a NUL behind it. -/
def StartsWith (line buf : Text) : Prop := line ++ ['\x00'] <+: buf

/-- A buffer that held `old` after a string and its NUL have been stored in it. -/
def storeLine (line old : Text) : Text := line ++ '\x00' :: old.drop (line.length + 1)

/-- `while (p(line[len - 1])) { line[len - 1] = 0; len--; }`: the indices that are read
and written, and the buffer and length that are left unless one of them is outside. -/
def trimLoop (p : Char → Bool) : Text → Nat → List Int × Option (Text × Nat)
  | _, 0 => ([-1], none)
  | buf, n + 1 =>
      match buf[n]? with
      | none => ([(n : Int)], none)
      | some c =>
          if p c then
            let r := trimLoop p (buf.set n '\x00') n
            ((n : Int) :: r.1, r.2)
          else ([(n : Int)], some (buf, n + 1))

section Strings

variable {line buf : Text}

theorem stringIn_of_startsWith (hline : '\x00' ∉ line) (h : StartsWith line buf) :
    stringIn buf = line := by
  obtain ⟨rest, rfl⟩ := h
  have hfront : ∀ c ∈ line, decide (c ≠ '\x00') = true := by
    intro c hc
    rw [decide_eq_true_eq]
    rintro rfl
    exact hline hc
  rw [stringIn, List.append_assoc, List.takeWhile_append_of_pos hfront, List.singleton_append,
    List.takeWhile_cons_of_neg (by decide), List.append_nil]

@[simp]
theorem stringIn_append (hline : '\x00' ∉ line) (rest : Text) :
    stringIn (line ++ '\x00' :: rest) = line :=
  stringIn_of_startsWith hline ⟨rest, by simp⟩

@[simp]
theorem nul_not_mem_stringIn (buf : Text) : '\x00' ∉ stringIn buf := by
  intro h
  have hne := List.mem_takeWhile_imp h
  exact absurd rfl (of_decide_eq_true hne)

@[simp]
theorem stringIn_concat (buf : Text) : stringIn (buf ++ ['\x00']) = stringIn buf := by
  induction buf with
  | nil => rfl
  | cons c buf ih =>
      rw [stringIn, stringIn] at ih ⊢
      rw [List.cons_append, List.takeWhile_cons, List.takeWhile_cons, ih]

theorem length_stringIn_lt_iff (buf : Text) :
    (stringIn buf).length < buf.length ↔ '\x00' ∈ buf := by
  induction buf with
  | nil => simp [stringIn]
  | cons c buf ih =>
      rw [stringIn] at ih ⊢
      rcases eq_or_ne c '\x00' with rfl | hne
      · rw [List.takeWhile_cons_of_neg (by decide)]
        simp
      · rw [List.takeWhile_cons_of_pos (by simpa using hne), List.length_cons, List.length_cons,
          Nat.add_lt_add_iff_right, ih, List.mem_cons, or_iff_right hne.symm]

theorem length_stringIn_le (buf : Text) : (stringIn buf).length ≤ buf.length :=
  (List.takeWhile_prefix _).length_le

theorem length_stringIn_pos_iff (hbuf : buf ≠ []) :
    0 < (stringIn buf).length ↔ buf.head? ≠ some '\x00' := by
  obtain ⟨c, rest, rfl⟩ := List.exists_cons_of_ne_nil hbuf
  rw [stringIn, List.head?_cons, Ne, Option.some.injEq]
  rcases eq_or_ne c '\x00' with rfl | hne
  · rw [List.takeWhile_cons_of_neg (by decide)]
    simp
  · rw [List.takeWhile_cons_of_pos (by simpa using hne)]
    simpa using hne

theorem append_nul_eq (piece old : Text) :
    ∃ rest, piece ++ '\x00' :: old = stringIn piece ++ '\x00' :: rest := by
  induction piece with
  | nil => exact ⟨old, rfl⟩
  | cons c piece ih =>
      rw [stringIn]
      rcases eq_or_ne c '\x00' with rfl | hne
      · rw [List.takeWhile_cons_of_neg (by decide)]
        exact ⟨piece ++ '\x00' :: old, rfl⟩
      · rw [List.takeWhile_cons_of_pos (by simpa using hne)]
        obtain ⟨rest, hrest⟩ := ih
        exact ⟨rest, congrArg (c :: ·) hrest⟩

theorem storeLine_eq (piece old : Text) :
    ∃ rest, storeLine piece old = stringIn piece ++ '\x00' :: rest :=
  append_nul_eq piece _

end Strings

section Trimming

variable {p : Char → Bool} {line rest : Text}

theorem trimLoop_concat (p : Char → Bool) (line : Text) (c : Char) (rest : Text) :
    trimLoop p (line ++ c :: rest) (line.length + 1) =
      if p c then
        ((line.length : Int) :: (trimLoop p (line ++ '\x00' :: rest) line.length).1,
          (trimLoop p (line ++ '\x00' :: rest) line.length).2)
      else ([(line.length : Int)], some (line ++ c :: rest, line.length + 1)) := by
  have hget : (line ++ c :: rest)[line.length]? = some c := by
    rw [List.getElem?_append_right le_rfl, Nat.sub_self, List.getElem?_cons_zero]
  have hset : (line ++ c :: rest).set line.length '\x00' = line ++ '\x00' :: rest := by
    rw [List.set_append_right _ _ le_rfl, Nat.sub_self, List.set_cons_zero]
  rw [trimLoop, hget]
  dsimp only
  rw [hset]

/-- The loop stays inside a string that has another character and leaves it without the
characters at its end. -/
theorem trimLoop_of_exists (h : ∃ c ∈ line, p c = false) (rest : Text) :
    (∀ i ∈ (trimLoop p (line ++ '\x00' :: rest) line.length).1, 0 ≤ i ∧ i < line.length) ∧
      ∃ rest', (trimLoop p (line ++ '\x00' :: rest) line.length).2 =
        some (line.rdropWhile p ++ '\x00' :: rest', (line.rdropWhile p).length) := by
  induction line using List.reverseRecOn generalizing rest with
  | nil => simp at h
  | append_singleton line c ih =>
      rw [List.append_assoc, List.singleton_append, List.length_append, List.length_singleton,
        trimLoop_concat]
      split
      · next hc =>
          have hexists : ∃ c ∈ line, p c = false := by
            obtain ⟨d, hd, hpd⟩ := h
            rcases List.mem_append.mp hd with hd | hd
            · exact ⟨d, hd, hpd⟩
            · rw [List.mem_singleton.mp hd, hc] at hpd
              exact absurd hpd (by decide)
          obtain ⟨hindices, rest', hleft⟩ := ih hexists ('\x00' :: rest)
          rw [List.rdropWhile_concat_pos _ _ _ hc]
          refine ⟨?_, rest', hleft⟩
          rw [List.forall_mem_cons]
          refine ⟨by omega, fun i hi => ?_⟩
          have hrange := hindices i hi
          omega
      · next hc =>
          rw [List.rdropWhile_concat_neg _ _ _ hc, List.length_append, List.length_singleton]
          refine ⟨?_, rest, by simp⟩
          rw [List.forall_mem_singleton]
          omega

/-- On a string of such characters only it reads the byte in front of the buffer. -/
theorem trimLoop_of_forall (h : ∀ c ∈ line, p c = true) (rest : Text) :
    -1 ∈ (trimLoop p (line ++ '\x00' :: rest) line.length).1 ∧
      (trimLoop p (line ++ '\x00' :: rest) line.length).2 = none := by
  induction line using List.reverseRecOn generalizing rest with
  | nil => exact ⟨List.mem_singleton_self _, rfl⟩
  | append_singleton line c ih =>
      have hline := fun d hd => h d (List.mem_append_left _ hd)
      rw [List.append_assoc, List.singleton_append, List.length_append, List.length_singleton,
        trimLoop_concat, if_pos (h c (by simp))]
      obtain ⟨hfront, hnone⟩ := ih hline ('\x00' :: rest)
      exact ⟨List.mem_cons_of_mem _ hfront, hnone⟩

end Trimming

end DaapLog.ByteBuffers

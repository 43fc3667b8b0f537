import Mathlib

/-!
The write loop of `daapTCPLogWrite`. OpenSSL is a parameter: `sslWrite k len`
is the result of the `k`-th `SSL_write` call of the loop when that call asks for
`len` bytes, so a function of the call number covers every sequence of results.
-/

namespace DaapLog.TcpLogWrite

/-- One call `SSL_write(cSSL, buf + offset, length)` together with its result. -/
structure WriteCall where
  offset : Int
  length : Int
  result : Int
  deriving DecidableEq, Repr

/-- Control is inside the `while` loop, behind it, or out of the process: the
macro `CHK_SSL` exits on a result of `-1`. -/
inductive Control
  | writing
  | left
  | exited
  deriving DecidableEq, Repr

/-- The locals of `daapTCPLogWrite` and the calls its loop has made so far. -/
structure WriteLoop where
  count : Int := 0
  total_count : Int := 0
  calls : List WriteCall := []
  control : Control := .writing
  deriving DecidableEq, Repr

/-- The test of the `while` loop and, when it lets control in, the body. Pointer
and remaining length are taken from `count`, the result of the previous call;
only the test looks at `total_count`. -/
def iteration (sslWrite : Nat → Int → Int) (buf_size : Int) (s : WriteLoop) : WriteLoop :=
  match s.control with
  | .left => s
  | .exited => s
  | .writing =>
      if s.total_count = buf_size then
        { s with control := .left }
      else
        let count := sslWrite s.calls.length (buf_size - s.count)
        let calls := s.calls ++ [⟨s.count, buf_size - s.count, count⟩]
        if count = -1 then
          { s with count := count, calls := calls, control := .exited }
        else if count < 0 then
          { s with count := -1, calls := calls, control := .left }
        else
          { s with count := count, total_count := s.total_count + count, calls := calls }

/-- The loop of `daapTCPLogWrite(buf, buf_size)` after `k` rounds. -/
def loopAfter (sslWrite : Nat → Int → Int) (buf_size : Int) (k : Nat) : WriteLoop :=
  (iteration sslWrite buf_size)^[k] {}

theorem loopAfter_succ (sslWrite : Nat → Int → Int) (buf_size : Int) (k : Nat) :
    loopAfter sslWrite buf_size (k + 1) =
      iteration sslWrite buf_size (loopAfter sslWrite buf_size k) :=
  Function.iterate_succ_apply' _ _ _

theorem iteration_of_not_writing {sslWrite : Nat → Int → Int} {buf_size : Int} {s : WriteLoop}
    (h : s.control ≠ .writing) : iteration sslWrite buf_size s = s := by
  cases hs : s.control with
  | writing => exact absurd hs h
  | left => simp [iteration, hs]
  | exited => simp [iteration, hs]

theorem iteration_stop {sslWrite : Nat → Int → Int} {buf_size : Int} {s : WriteLoop}
    (hs : s.control = .writing) (htotal : s.total_count = buf_size) :
    iteration sslWrite buf_size s = { s with control := .left } := by
  simp [iteration, hs, htotal]

theorem iteration_progress {sslWrite : Nat → Int → Int} {buf_size c : Int} {s : WriteLoop}
    (hs : s.control = .writing) (htotal : s.total_count ≠ buf_size)
    (hcall : sslWrite s.calls.length (buf_size - s.count) = c) (hc : 0 < c) :
    iteration sslWrite buf_size s =
      { count := c
        total_count := s.total_count + c
        calls := s.calls ++ [⟨s.count, buf_size - s.count, c⟩]
        control := .writing } := by
  have h1 : c ≠ -1 := by omega
  have h2 : ¬c < 0 := by omega
  simp [iteration, hs, htotal, hcall, h1, h2]

theorem iteration_calls {sslWrite : Nat → Int → Int} {buf_size : Int} {s : WriteLoop}
    (hs : s.control = .writing) (htotal : s.total_count ≠ buf_size) :
    (iteration sslWrite buf_size s).calls =
      s.calls ++ [⟨s.count, buf_size - s.count,
        sslWrite s.calls.length (buf_size - s.count)⟩] := by
  simp only [iteration, hs, if_neg htotal]
  split
  · rfl
  · split
    · rfl
    · rfl

theorem calls_prefix_iteration (sslWrite : Nat → Int → Int) (buf_size : Int) (s : WriteLoop) :
    s.calls <+: (iteration sslWrite buf_size s).calls := by
  unfold iteration
  split
  · exact List.prefix_rfl
  · exact List.prefix_rfl
  · split
    · exact List.prefix_rfl
    · dsimp only
      split
      · exact List.prefix_append _ _
      · split
        · exact List.prefix_append _ _
        · exact List.prefix_append _ _

theorem calls_prefix_loopAfter (sslWrite : Nat → Int → Int) (buf_size : Int) (j k : Nat) :
    (loopAfter sslWrite buf_size j).calls <+: (loopAfter sslWrite buf_size (j + k)).calls := by
  induction k with
  | zero => exact List.prefix_rfl
  | succ k ih =>
      rw [← Nat.add_assoc, loopAfter_succ]
      exact ih.trans (calls_prefix_iteration _ _ _)

theorem loopAfter_of_not_writing {sslWrite : Nat → Int → Int} {buf_size : Int} {j : Nat}
    (h : (loopAfter sslWrite buf_size j).control ≠ .writing) (k : Nat) :
    loopAfter sslWrite buf_size (j + k) = loopAfter sslWrite buf_size j := by
  induction k with
  | zero => rfl
  | succ k ih =>
      rw [← Nat.add_assoc, loopAfter_succ, ih, iteration_of_not_writing h]

/-- The indices of `buf` whose bytes the calls accepted, in call order. -/
def acceptedPositions (calls : List WriteCall) : List Nat :=
  calls.flatMap fun call => List.range' call.offset.toNat call.result.toNat

def acceptedBytes (buf : List UInt8) (calls : List WriteCall) : List UInt8 :=
  calls.flatMap fun call => (buf.drop call.offset.toNat).take call.result.toNat

/-- Every call makes progress: it accepts a nonempty front part of the region it
is given. -/
def Progress (sslWrite : Nat → Int → Int) : Prop :=
  ∀ k len, 0 < len → 0 < sslWrite k len ∧ sslWrite k len ≤ len

/-- Every call so far asked for bytes of the buffer only. -/
def WriteLoop.AsksInside (s : WriteLoop) (buf_size : Int) : Prop :=
  ∀ call ∈ s.calls, 0 ≤ call.offset ∧ 0 ≤ call.length ∧ call.offset + call.length ≤ buf_size

/-- The loop hands over `buf` exactly: no call asks for a byte outside `buf`,
`total_count` stays within `buf`, and the loop stops with every byte accepted
once and in order. -/
structure WritesWhole (sslWrite : Nat → Int → Int) (buf : List UInt8) : Prop where
  inside : ∀ k, (loopAfter sslWrite buf.length k).AsksInside buf.length
  total_le : ∀ k, (loopAfter sslWrite buf.length k).total_count ≤ buf.length
  stops : ∃ k, (loopAfter sslWrite buf.length k).control = .left ∧
    acceptedPositions (loopAfter sslWrite buf.length k).calls = List.range buf.length ∧
    acceptedBytes buf (loopAfter sslWrite buf.length k).calls = buf

section TwoCalls

variable {sslWrite : Nat → Int → Int} {buf : List UInt8}

theorem loopAfter_one (hbuf : buf ≠ []) (hprogress : Progress sslWrite) :
    loopAfter sslWrite buf.length 1 =
      { count := sslWrite 0 buf.length
        total_count := sslWrite 0 buf.length
        calls := [⟨0, buf.length, sslWrite 0 buf.length⟩]
        control := .writing } := by
  have hlen : (0 : Int) < buf.length := by
    exact_mod_cast List.length_pos_iff.mpr hbuf
  rw [show (1 : Nat) = 0 + 1 from rfl, loopAfter_succ,
    iteration_progress (c := sslWrite 0 buf.length) rfl]
  · simp [loopAfter]
  · simp only [loopAfter, Function.iterate_zero, id_eq]
    omega
  · simp [loopAfter]
  · exact (hprogress 0 _ hlen).1

theorem loopAfter_two (hbuf : buf ≠ []) (hprogress : Progress sslWrite)
    (hfirst : sslWrite 0 buf.length ≠ buf.length) :
    loopAfter sslWrite buf.length 2 =
      { count := sslWrite 1 (buf.length - sslWrite 0 buf.length)
        total_count := sslWrite 0 buf.length + sslWrite 1 (buf.length - sslWrite 0 buf.length)
        calls := [⟨0, buf.length, sslWrite 0 buf.length⟩,
          ⟨sslWrite 0 buf.length, buf.length - sslWrite 0 buf.length,
            sslWrite 1 (buf.length - sslWrite 0 buf.length)⟩]
        control := .writing } := by
  have hlen : (0 : Int) < buf.length := by
    exact_mod_cast List.length_pos_iff.mpr hbuf
  have hle := (hprogress 0 _ hlen).2
  rw [show (2 : Nat) = 1 + 1 from rfl, loopAfter_succ, loopAfter_one hbuf hprogress,
    iteration_progress (c := sslWrite 1 (buf.length - sslWrite 0 buf.length)) rfl]
  · rfl
  · exact hfirst
  · rfl
  · exact (hprogress 1 _ (by omega)).1

theorem loopAfter_three (hbuf : buf ≠ []) (hprogress : Progress sslWrite) {c₁ c₂ : Int}
    (hc₁ : sslWrite 0 buf.length = c₁) (hc₂ : sslWrite 1 (buf.length - c₁) = c₂)
    (hfirst : c₁ ≠ buf.length) (hsecond : c₁ + c₂ ≠ buf.length) :
    loopAfter sslWrite buf.length 3 =
      { count := sslWrite 2 (buf.length - c₂)
        total_count := c₁ + c₂ + sslWrite 2 (buf.length - c₂)
        calls := [⟨0, buf.length, c₁⟩, ⟨c₁, buf.length - c₁, c₂⟩,
          ⟨c₂, buf.length - c₂, sslWrite 2 (buf.length - c₂)⟩]
        control := .writing } := by
  subst hc₁ hc₂
  have hlen : (0 : Int) < buf.length := by
    exact_mod_cast List.length_pos_iff.mpr hbuf
  have hfirst_le := hprogress 0 _ hlen
  have hsecond_le := hprogress 1 (buf.length - sslWrite 0 buf.length) (by omega)
  rw [show (3 : Nat) = 2 + 1 from rfl, loopAfter_succ, loopAfter_two hbuf hprogress hfirst]
  rw [iteration_progress
    (c := sslWrite 2 (buf.length - sslWrite 1 (buf.length - sslWrite 0 buf.length))) rfl]
  · rfl
  · exact hsecond
  · rfl
  · exact (hprogress 2 _ (by omega)).1

theorem start_of_third {a b c start n : Nat} {later : List Nat} (hc : 0 < c)
    (h : List.range' 0 a ++ (List.range' a b ++ (List.range' start c ++ later)) = List.range n) :
    start = a + b := by
  have hget := congrArg (fun positions => positions[a + b]?) h
  obtain ⟨rest, rfl⟩ := Nat.exists_eq_add_one_of_ne_zero (Nat.ne_of_gt hc)
  simp only [List.range'_succ] at hget
  rw [List.getElem?_append_right (by simp), List.getElem?_append_right (by simp)] at hget
  simp only [List.length_range', Nat.add_sub_cancel_left, Nat.sub_self, List.cons_append,
    List.getElem?_cons_zero] at hget
  obtain ⟨hlt, heq⟩ := List.getElem?_eq_some_iff.mp hget.symm
  rw [List.getElem_range] at heq
  exact heq.symm

/-- A run whose loop is left after round `k` is described by its first `k`
states. -/
theorem forall_loopAfter {P : WriteLoop → Prop} {k : Nat}
    (hleft : (loopAfter sslWrite buf.length k).control ≠ .writing)
    (h : ∀ j ≤ k, P (loopAfter sslWrite buf.length j)) (j : Nat) :
    P (loopAfter sslWrite buf.length j) := by
  rcases Nat.le_total j k with hj | hj
  · exact h j hj
  · obtain ⟨extra, rfl⟩ := Nat.exists_eq_add_of_le hj
    rw [loopAfter_of_not_writing hleft]
    exact h k le_rfl

theorem writesWhole_of_first_call (hbuf : buf ≠ []) (hprogress : Progress sslWrite)
    (hfirst : sslWrite 0 buf.length = buf.length) : WritesWhole sslWrite buf := by
  have hone := loopAfter_one hbuf hprogress
  have htwo : loopAfter sslWrite buf.length 2 =
      { loopAfter sslWrite buf.length 1 with control := .left } := by
    rw [show (2 : Nat) = 1 + 1 from rfl, loopAfter_succ]
    exact iteration_stop (by rw [hone]) (by rw [hone, hfirst])
  have hleft : (loopAfter sslWrite buf.length 2).control ≠ .writing := by
    simp [htwo]
  refine ⟨forall_loopAfter (P := (·.AsksInside buf.length)) hleft ?_,
    forall_loopAfter (P := (·.total_count ≤ buf.length)) hleft ?_, 2, by rw [htwo], ?_, ?_⟩
  · intro j hj
    interval_cases j
    · simp [WriteLoop.AsksInside, loopAfter]
    · simp [WriteLoop.AsksInside, hone]
    · simp [WriteLoop.AsksInside, htwo, hone]
  · intro j hj
    interval_cases j
    · simp [loopAfter]
    · simp [hone, hfirst]
    · simp [htwo, hone, hfirst]
  · simp [htwo, hone, hfirst, acceptedPositions, List.range_eq_range']
  · simp [htwo, hone, hfirst, acceptedBytes]

theorem writesWhole_of_second_call (hbuf : buf ≠ []) (hprogress : Progress sslWrite)
    (hfirst : sslWrite 0 buf.length ≠ buf.length)
    (hsecond : sslWrite 0 buf.length + sslWrite 1 (buf.length - sslWrite 0 buf.length) =
      buf.length) : WritesWhole sslWrite buf := by
  have hlen : (0 : Int) < buf.length := by
    exact_mod_cast List.length_pos_iff.mpr hbuf
  obtain ⟨hpos, hle⟩ := hprogress 0 _ hlen
  have hone := loopAfter_one hbuf hprogress
  have htwo := loopAfter_two hbuf hprogress hfirst
  have hthree : loopAfter sslWrite buf.length 3 =
      { loopAfter sslWrite buf.length 2 with control := .left } := by
    rw [show (3 : Nat) = 2 + 1 from rfl, loopAfter_succ]
    exact iteration_stop (by rw [htwo]) (by rw [htwo, hsecond])
  have hleft : (loopAfter sslWrite buf.length 3).control ≠ .writing := by
    simp [hthree]
  generalize sslWrite 0 buf.length = c₁ at *
  generalize sslWrite 1 (buf.length - c₁) = c₂ at *
  -- the two regions meet: the second starts where the first one ends
  obtain ⟨m, rfl⟩ : ∃ m : Nat, c₁ = m := ⟨c₁.toNat, by omega⟩
  have hrest : c₂.toNat = buf.length - m := by omega
  refine ⟨forall_loopAfter (P := (·.AsksInside buf.length)) hleft ?_,
    forall_loopAfter (P := (·.total_count ≤ buf.length)) hleft ?_, 3, by rw [hthree], ?_, ?_⟩
  · intro j hj
    interval_cases j
    · simp [WriteLoop.AsksInside, loopAfter]
    · simp [WriteLoop.AsksInside, hone]
    · simp only [WriteLoop.AsksInside, htwo, List.forall_mem_cons, List.not_mem_nil,
        false_imp_iff, implies_true, and_true]
      omega
    · simp only [WriteLoop.AsksInside, hthree, htwo, List.forall_mem_cons, List.not_mem_nil,
        false_imp_iff, implies_true, and_true]
      omega
  · intro j hj
    interval_cases j
    · simp [loopAfter]
    · simp [hone, hle]
    · simp [htwo, hsecond]
    · simp [hthree, htwo, hsecond]
  · simp only [hthree, htwo, acceptedPositions, List.flatMap_cons, List.flatMap_nil,
      List.append_nil, hrest, Int.toNat_natCast, Int.toNat_zero]
    rw [List.range_eq_range', show buf.length = m + (buf.length - m) by omega]
    simpa using (List.range'_append_1 (s := 0) (m := m) (n := buf.length - m))
  · simp only [hthree, htwo, acceptedBytes, List.flatMap_cons, List.flatMap_nil,
      List.append_nil, hrest, Int.toNat_natCast, Int.toNat_zero, List.drop_zero]
    rw [List.take_of_length_le (by simp : (buf.drop m).length ≤ buf.length - m)]
    exact List.take_append_drop m buf

/-- A third call starts at the end of the region of the second one alone, so the
bytes of the first one are sent again. -/
theorem two_calls_of_stops (hbuf : buf ≠ []) (hprogress : Progress sslWrite)
    (hstops : ∃ k, (loopAfter sslWrite buf.length k).control = .left ∧
      acceptedPositions (loopAfter sslWrite buf.length k).calls = List.range buf.length) :
    sslWrite 0 buf.length = buf.length ∨
      sslWrite 0 buf.length + sslWrite 1 (buf.length - sslWrite 0 buf.length) = buf.length := by
  by_contra hnot
  obtain ⟨hfirst, hsecond⟩ := not_or.mp hnot
  have hlen : (0 : Int) < buf.length := by
    exact_mod_cast List.length_pos_iff.mpr hbuf
  obtain ⟨hpos₀, hle₀⟩ := hprogress 0 _ hlen
  obtain ⟨hpos₁, hle₁⟩ := hprogress 1 (buf.length - sslWrite 0 buf.length) (by omega)
  have hone := loopAfter_one hbuf hprogress
  have htwo := loopAfter_two hbuf hprogress hfirst
  have hthree := loopAfter_three hbuf hprogress rfl rfl hfirst hsecond
  generalize sslWrite 0 buf.length = c₁ at *
  generalize sslWrite 1 (buf.length - c₁) = c₂ at *
  obtain ⟨hpos₂, -⟩ := hprogress 2 (buf.length - c₂) (by omega)
  obtain ⟨k, hleft, hpositions⟩ := hstops
  have hk : 3 ≤ k := by
    by_contra hlt
    have : k ≤ 2 := by omega
    interval_cases k
    · simp [loopAfter] at hleft
    · simp [hone] at hleft
    · simp [htwo] at hleft
  obtain ⟨extra, rfl⟩ := Nat.exists_eq_add_of_le hk
  obtain ⟨later, hlater⟩ := calls_prefix_loopAfter sslWrite buf.length 3 extra
  rw [← hlater, hthree] at hpositions
  simp only [acceptedPositions, List.flatMap_append, List.flatMap_cons, List.flatMap_nil,
    List.append_nil, List.append_assoc, Int.toNat_zero] at hpositions
  have hstart := start_of_third (by omega) hpositions
  omega

theorem two_calls_of_writesWhole (hbuf : buf ≠ []) (hprogress : Progress sslWrite)
    (hwhole : WritesWhole sslWrite buf) :
    sslWrite 0 buf.length = buf.length ∨
      sslWrite 0 buf.length + sslWrite 1 (buf.length - sslWrite 0 buf.length) = buf.length := by
  obtain ⟨k, hleft, hpositions, -⟩ := hwhole.stops
  exact two_calls_of_stops hbuf hprogress ⟨k, hleft, hpositions⟩

/-- The loop hands over the buffer exactly when its first call takes all of it or
the first two calls take it together. -/
theorem daapTCPLogWrite_writesWhole_iff (sslWrite : Nat → Int → Int) (buf : List UInt8)
    (hbuf : buf ≠ []) (hprogress : Progress sslWrite) :
    WritesWhole sslWrite buf ↔
      sslWrite 0 buf.length = buf.length ∨
        sslWrite 0 buf.length + sslWrite 1 (buf.length - sslWrite 0 buf.length) =
          buf.length := by
  constructor
  · exact two_calls_of_writesWhole hbuf hprogress
  · intro h
    by_cases hfirst : sslWrite 0 buf.length = buf.length
    · exact writesWhole_of_first_call hbuf hprogress hfirst
    · exact writesWhole_of_second_call hbuf hprogress hfirst (h.resolve_left hfirst)

theorem progress_halves : Progress fun _ len => (len + 1) / 2 := by
  intro k len hlen
  dsimp only
  omega

theorem progress_single : Progress fun _ _ => 1 := by
  intro k len hlen
  dsimp only
  omega

/-- A buffer of two bytes written in halves arrives. -/
theorem daapTCPLogWrite_writesWhole_two_bytes :
    WritesWhole (fun _ len => (len + 1) / 2) [0x64, 0x61] :=
  (daapTCPLogWrite_writesWhole_iff _ _ (by decide) progress_halves).mpr (Or.inr (by decide))

/-- A buffer of three bytes written byte by byte does not: the third call sends the
second byte again. -/
theorem daapTCPLogWrite_byte_by_byte :
    ¬∀ (sslWrite : Nat → Int → Int) (buf : List UInt8), buf ≠ [] → Progress sslWrite →
      WritesWhole sslWrite buf := by
  intro h
  have hwhole := h (fun _ _ => 1) [0x64, 0x61, 0x70] (by decide) progress_single
  exact absurd (two_calls_of_writesWhole (by decide) progress_single hwhole) (by decide)

end TwoCalls

end DaapLog.TcpLogWrite

import DaapLog.LibraryCalls

/-!
What the result of the write functions says about the delivery of the line.
-/

namespace DaapLog.DeliveryResult

open DaapLog.BuildInflux (daap_init_t DAAP_SUCCESS daapBuildInflux daapBuildRawInflux fullMessage
  daapBuildInflux_ne_nil daapBuildRawInflux_ne_nil)
open DaapLog.CStrings
open DaapLog.LibraryCalls
open DaapLog.TcpLogWrite
open DaapLog.TlsTransport
open DaapLog.TracedCalls

def Connects (io : WriteIo) (t : Tls) : Prop :=
  io.Reaches ∧ t.sslctx = .live ∧ 0 ≤ io.SSL_connect

/-- The write loop of a message, as far as it is looked at. -/
def loopOf (io : WriteIo) (buf_size : Nat) : WriteLoop :=
  loopAfter io.SSL_write buf_size (io.rounds + 1)

/-- The transport has accepted every byte of the line once and in order. -/
def Delivered (io : WriteIo) (t : Tls) (buf_size : Nat) : Prop :=
  Connects io t ∧ acceptedPositions (loopOf io buf_size).calls = List.range buf_size

def Fails (io : WriteIo) (t : Tls) (buf_size : Nat) : Prop :=
  ¬Connects io t ∨ ∃ call ∈ (loopOf io buf_size).calls, call.result ≤ 0

/-- Success means delivered, and a failure is reported. -/
structure ReportsDelivery (io : WriteIo) (t : Tls) (buf_size : Nat) (ending : Ending Int) :
    Prop where
  success : ending = .returns DAAP_SUCCESS → Delivered io t buf_size
  failure : Fails io t buf_size → ∃ ret, ret ≠ DAAP_SUCCESS ∧ ending = .returns ret

/-- Connecting and every write succeed, and the loop is left after two writes at most. -/
structure GoesWell (io : WriteIo) (t : Tls) (buf_size : Nat) : Prop where
  connects : Connects io t
  writes : ∀ call ∈ (loopOf io buf_size).calls, 0 < call.result
  soon : (loopOf io buf_size).control = .left →
    io.SSL_write 0 buf_size = buf_size ∨
      io.SSL_write 0 buf_size + io.SSL_write 1 (buf_size - io.SSL_write 0 buf_size) = buf_size

/-- A positive result of `SSL_write` is at most the length that it is asked for. -/
def Bounded (sslWrite : Nat → Int → Int) : Prop :=
  ∀ k len, 0 < sslWrite k len → sslWrite k len ≤ len

section Loop

variable {sslWrite : Nat → Int → Int} {buf_size : Nat}

/-- A writer that always makes progress, and the given one where that does. -/
def progressing (sslWrite : Nat → Int → Int) (k : Nat) (len : Int) : Int :=
  if 0 < sslWrite k len then sslWrite k len else len

theorem progress_progressing (h : Bounded sslWrite) : Progress (progressing sslWrite) := by
  intro k len hlen
  rw [progressing]
  split
  · next hpos => exact ⟨hpos, h k len hpos⟩
  · exact ⟨hlen, le_rfl⟩

theorem loopAfter_progressing {k : Nat}
    (h : ∀ call ∈ (loopAfter sslWrite buf_size k).calls, 0 < call.result) :
    loopAfter (progressing sslWrite) buf_size k = loopAfter sslWrite buf_size k := by
  induction k with
  | zero => rfl
  | succ k ih =>
      have hbefore := calls_prefix_loopAfter sslWrite buf_size k 1
      have hsame := ih fun call hcall => h call (hbefore.subset hcall)
      rw [loopAfter_succ] at h
      rw [loopAfter_succ, loopAfter_succ, hsame]
      generalize loopAfter sslWrite buf_size k = s at h
      by_cases hs : s.control = .writing
      · by_cases htotal : s.total_count = buf_size
        · rw [iteration_stop hs htotal, iteration_stop hs htotal]
        · have hpos : 0 < sslWrite s.calls.length (buf_size - s.count) := by
            rw [iteration_calls hs htotal] at h
            exact h _ (List.mem_append_right _ (List.mem_singleton_self _))
          rw [iteration_progress hs htotal (if_pos hpos) hpos, iteration_progress hs htotal rfl hpos]
      · rw [iteration_of_not_writing hs, iteration_of_not_writing hs]

theorem calls_one (hsize : buf_size ≠ 0) :
    (loopAfter sslWrite buf_size 1).calls = [⟨0, buf_size, sslWrite 0 buf_size⟩] := by
  have hzero : (0 : Int) ≠ buf_size := by exact_mod_cast hsize.symm
  have hcalls : (iteration sslWrite buf_size {}).calls = _ := iteration_calls rfl hzero
  simpa [loopAfter] using hcalls

theorem loopAfter_first (hsize : buf_size ≠ 0) (hfirst : 0 < sslWrite 0 buf_size) :
    loopAfter sslWrite buf_size 1 =
      { count := sslWrite 0 buf_size
        total_count := sslWrite 0 buf_size
        calls := [⟨0, buf_size, sslWrite 0 buf_size⟩]
        control := .writing } := by
  have hzero : (0 : Int) ≠ buf_size := by exact_mod_cast hsize.symm
  have hround : iteration sslWrite buf_size {} = _ :=
    iteration_progress rfl hzero rfl (by simpa using hfirst)
  simpa [loopAfter] using hround

theorem first_results {k : Nat} (hsize : buf_size ≠ 0)
    (hpos : ∀ call ∈ (loopAfter sslWrite buf_size k).calls, 0 < call.result)
    (hleft : (loopAfter sslWrite buf_size k).control = .left) :
    0 < sslWrite 0 buf_size ∧
      (sslWrite 0 buf_size ≠ buf_size → 0 < sslWrite 1 (buf_size - sslWrite 0 buf_size)) := by
  have hsome : k ≠ 0 := by
    rintro rfl
    exact absurd hleft (by simp [loopAfter])
  have hone := calls_prefix_loopAfter sslWrite buf_size 1 (k - 1)
  rw [Nat.add_sub_cancel' (Nat.one_le_iff_ne_zero.mpr hsome), calls_one hsize] at hone
  have hfirst : 0 < sslWrite 0 buf_size := hpos _ (hone.subset List.mem_cons_self)
  refine ⟨hfirst, fun hpart => ?_⟩
  have hround := loopAfter_first hsize hfirst
  have hmore : 2 ≤ k := by
    by_contra hlt
    obtain rfl : k = 1 := by omega
    rw [hround] at hleft
    cases hleft
  have htwo : (loopAfter sslWrite buf_size 2).calls =
      [⟨0, buf_size, sslWrite 0 buf_size⟩] ++ [⟨sslWrite 0 buf_size,
        buf_size - sslWrite 0 buf_size, sslWrite 1 (buf_size - sslWrite 0 buf_size)⟩] := by
    rw [show (2 : Nat) = 1 + 1 from rfl, loopAfter_succ, hround]
    exact iteration_calls rfl hpart
  have hcalls := calls_prefix_loopAfter sslWrite buf_size 2 (k - 2)
  rw [Nat.add_sub_cancel' hmore, htwo] at hcalls
  exact hpos _ (hcalls.subset (List.mem_append_right _ (List.mem_singleton_self _)))

theorem loopAfter_unique {j k : Nat}
    (hj : (loopAfter sslWrite buf_size j).control ≠ .writing)
    (hk : (loopAfter sslWrite buf_size k).control ≠ .writing) :
    loopAfter sslWrite buf_size j = loopAfter sslWrite buf_size k := by
  rw [← loopAfter_of_not_writing hj k, ← loopAfter_of_not_writing hk j, Nat.add_comm]

/-- A loop that is left behind such calls has handed over the line exactly if the first
call takes all of it or the first two take it together. -/
theorem positions_iff {k : Nat} (hsize : buf_size ≠ 0) (hbounded : Bounded sslWrite)
    (hpos : ∀ call ∈ (loopAfter sslWrite buf_size k).calls, 0 < call.result)
    (hleft : (loopAfter sslWrite buf_size k).control = .left) :
    acceptedPositions (loopAfter sslWrite buf_size k).calls = List.range buf_size ↔
      sslWrite 0 buf_size = buf_size ∨
        sslWrite 0 buf_size + sslWrite 1 (buf_size - sslWrite 0 buf_size) = buf_size := by
  obtain ⟨hfirst, hsecond⟩ := first_results hsize hpos hleft
  have hsame := loopAfter_progressing hpos
  have hzero : progressing sslWrite 0 buf_size = sslWrite 0 buf_size := if_pos hfirst
  have hbuf : List.replicate buf_size (0 : UInt8) ≠ [] := by simpa using hsize
  have htwo := two_calls_of_stops hbuf (progress_progressing hbounded)
  have hwhole := daapTCPLogWrite_writesWhole_iff _ _ hbuf (progress_progressing hbounded)
  rw [List.length_replicate, hzero] at htwo hwhole
  have hresults : (sslWrite 0 buf_size = buf_size ∨ sslWrite 0 buf_size +
      progressing sslWrite 1 (buf_size - sslWrite 0 buf_size) = buf_size) ↔
      (sslWrite 0 buf_size = buf_size ∨
        sslWrite 0 buf_size + sslWrite 1 (buf_size - sslWrite 0 buf_size) = buf_size) := by
    by_cases hpart : sslWrite 0 buf_size = buf_size
    · exact iff_of_true (.inl hpart) (.inl hpart)
    · rw [progressing, if_pos (hsecond hpart)]
  rw [← hresults]
  constructor
  · intro hpositions
    exact htwo ⟨k, by rw [hsame]; exact hleft, by rw [hsame]; exact hpositions⟩
  · intro h
    obtain ⟨j, hj, hpositions, -⟩ := (hwhole.mpr h).stops
    rw [List.length_replicate] at hj hpositions
    have hstate := loopAfter_unique (j := j) (k := k) (by rw [hj]; decide)
      (by rw [hsame, hleft]; decide)
    rw [← hsame, ← hstate]
    exact hpositions

end Loop

section Results

variable {io : WriteIo} {t : Tls} {buf_size : Nat}

theorem daapTCPLogWrite_ending (h : Connects io t) :
    (daapTCPLogWrite io buf_size t).2.2 =
      (writeLoop io buf_size (t.openSocket.openConnection (io.SSL_connect = 1))).2.2 := by
  have hcases := daapTCPLogWrite_cases io buf_size t
  generalize daapTCPLogWrite io buf_size t = r at hcases
  cases hcases with
  | noSocket hsocket => exact absurd h.1.1 (not_le.mpr hsocket)
  | noServer hsocket hconnect => exact absurd h.1.2 hconnect
  | noContext hreaches hctx => exact absurd h.2.1 hctx
  | noHandshake hreaches hctx hshake => exact absurd h.2.2 (not_le.mpr hshake)
  | connected hreaches hctx hshake => rfl

theorem writeLoop_returns_iff :
    (∃ ret, (writeLoop io buf_size t).2.2 = .returns ret) ↔
      (loopOf io buf_size).control = .left := by
  rw [writeLoop, loopOf]
  cases (loopAfter io.SSL_write buf_size (io.rounds + 1)).control with
  | left => exact iff_of_true ⟨_, rfl⟩ rfl
  | exited => simp
  | writing => simp

theorem not_fails_iff :
    ¬Fails io t buf_size ↔
      Connects io t ∧ ∀ call ∈ (loopOf io buf_size).calls, 0 < call.result := by
  simp only [Fails, not_or, not_not, not_exists, not_and, not_le]

theorem reportsDelivery_iff (hsize : buf_size ≠ 0) (hbounded : Bounded io.SSL_write) :
    ReportsDelivery io t buf_size
        ((daapTCPLogWrite io buf_size t).2.2.map fun _ => DAAP_SUCCESS) ↔
      GoesWell io t buf_size := by
  constructor
  · intro h
    have hfine : ¬Fails io t buf_size := by
      intro hfails
      obtain ⟨ret, hne, hret⟩ := h.failure hfails
      obtain ⟨-, -, hsuccess⟩ := Ending.map_eq_returns_iff.mp hret
      exact hne hsuccess.symm
    obtain ⟨hconnects, hpos⟩ := not_fails_iff.mp hfine
    refine ⟨hconnects, hpos, fun hleft => ?_⟩
    obtain ⟨ret, hret⟩ := writeLoop_returns_iff.mpr hleft
    have hdelivered := h.success (Ending.map_eq_returns_iff.mpr
      ⟨ret, (daapTCPLogWrite_ending hconnects).trans hret, rfl⟩)
    exact (positions_iff hsize hbounded hpos hleft).mp hdelivered.2
  · intro h
    refine ⟨fun hreturns => ⟨h.connects, ?_⟩, fun hfails => ?_⟩
    · obtain ⟨ret, hret, -⟩ := Ending.map_eq_returns_iff.mp hreturns
      rw [daapTCPLogWrite_ending h.connects] at hret
      have hleft := writeLoop_returns_iff.mp ⟨ret, hret⟩
      exact (positions_iff hsize hbounded h.writes hleft).mpr (h.soon hleft)
    · exact absurd hfails (not_fails_iff.mpr ⟨h.connects, h.writes⟩)

end Results

/-- The line of a formatted message and the raw one. -/
def lineOf (init_data : daap_init_t) (formatted : Text) (io : LogIo) : Text :=
  daapBuildInflux init_data io.tstamp (fullMessage io.msg_len io.old formatted)

def rawLineOf (formatted : Text) (io : LogIo) : Text :=
  daapBuildRawInflux (fullMessage io.msg_len io.old formatted)

/-- For every message on an initialised library with TCP: success means delivered, and a
failure is reported, exactly if nothing fails and two writes are enough. -/
theorem daapLogWrite_reportsDelivery_iff (l : Library) {init_data : daap_init_t}
    (hcalled : l.daapInit_called = true) (hdata : l.init_data = some init_data)
    (htcp : l.transport_type = .TCP) (formatted : Text) (io : LogIo)
    (hbounded : Bounded io.write.SSL_write) :
    (ReportsDelivery io.write l.tls (lineOf init_data formatted io).length
        (l.daapLogWrite .caller formatted io).2.2 ↔
      GoesWell io.write l.tls (lineOf init_data formatted io).length) ∧
    (ReportsDelivery io.write l.tls (rawLineOf formatted io).length
        (l.daapLogRawWrite formatted io).2.2 ↔
      GoesWell io.write l.tls (rawLineOf formatted io).length) := by
  have hline : (lineOf init_data formatted io).length ≠ 0 :=
    fun h => daapBuildInflux_ne_nil _ _ _ (List.length_eq_zero_iff.mp h)
  have hraw : (rawLineOf formatted io).length ≠ 0 :=
    fun h => daapBuildRawInflux_ne_nil _ (List.length_eq_zero_iff.mp h)
  rw [Library.daapLogWrite, Library.daapLogRawWrite, if_neg (by simp [hcalled]),
    if_neg (by simp [hcalled]), hdata]
  simp only [transmit_of_tcp l htcp]
  exact ⟨reportsDelivery_iff hline hbounded, reportsDelivery_iff hraw hbounded⟩

def connected : Library :=
  { Library.populate {} tcpInit "gr0959".toList with
    daapInit_called := true
    tls := { sslctx := .live } }

theorem bounded_promptWrite : Bounded promptWrite.SSL_write := fun _ _ _ => le_rfl

theorem daapLogWrite_reportsDelivery_prompt :
    ∃ init_data, connected.init_data = some init_data ∧
      (ReportsDelivery promptIo.write connected.tls (lineOf init_data heartbeatText promptIo).length
          (connected.daapLogWrite .caller heartbeatText promptIo).2.2 ↔
        GoesWell promptIo.write connected.tls
          (lineOf init_data heartbeatText promptIo).length) ∧
      (ReportsDelivery promptIo.write connected.tls (rawLineOf heartbeatText promptIo).length
          (connected.daapLogRawWrite heartbeatText promptIo).2.2 ↔
        GoesWell promptIo.write connected.tls (rawLineOf heartbeatText promptIo).length) :=
  ⟨_, rfl, daapLogWrite_reportsDelivery_iff connected rfl rfl rfl heartbeatText promptIo
    bounded_promptWrite⟩

/-- Without a server the line is lost and the result is success. -/
theorem daapLogWrite_reportsDelivery_fails_without_server :
    ∃ init_data, connected.init_data = some init_data ∧
      ¬ReportsDelivery { promptWrite with connect := -1 } connected.tls
        (lineOf init_data heartbeatText promptIo).length
        (connected.daapLogWrite .caller heartbeatText
          { promptIo with write := { promptWrite with connect := -1 } }).2.2 := by
  refine ⟨_, rfl, fun h => ?_⟩
  obtain ⟨ret, hne, hret⟩ := h.failure (.inl fun hconnects => absurd hconnects.1.2 (by decide))
  exact hne (Ending.returns.inj hret).symm

end DaapLog.DeliveryResult

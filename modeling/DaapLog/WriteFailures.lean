import DaapLog.DeliveryResult

/-!
`daapTCPLogWrite` with the mutex that it holds, on writes that fail. A result of `-1`
ends the process, any other negative result ends the loop.
-/

namespace DaapLog.WriteFailures

open DaapLog.BuildInflux (DAAP_ERROR)
open DaapLog.DeliveryResult (Connects loopOf)
open DaapLog.TcpLogWrite
open DaapLog.TlsTransport hiding daapTCPLogWrite
open DaapLog.TracedCalls

/-- The transport and whether `write_mutex` is locked. -/
structure Transport where
  tls : Tls
  write_mutex : Bool := false
  deriving DecidableEq, Repr

namespace Transport

/-- Waits while the mutex is locked. -/
def pthread_mutex_lock (p : Transport) : Traced Transport WriteCall Int :=
  if p.write_mutex then (p, [], .running) else ({ p with write_mutex := true }, [], .returns 0)

def pthread_mutex_unlock (p : Transport) : Transport := { p with write_mutex := false }

/-- The events are the calls of `SSL_write` with their results. -/
def daapTCPLogWrite (io : WriteIo) (buf_size : Nat) (p : Transport) :
    Traced Transport WriteCall Int :=
  andThen p.pthread_mutex_lock fun p _ =>
    let connect := daapTCPConnect io p.tls
    andThen ({ p with tls := connect.1 }, [], connect.2.2) fun p ret =>
      if ret < 0 then (p.pthread_mutex_unlock, [], .returns DAAP_ERROR)
      else
        let loop := writeLoop io buf_size p.tls
        andThen ({ p with tls := loop.1 }, (loopOf io buf_size).calls, loop.2.2) fun p count =>
          (p.pthread_mutex_unlock, [], .returns count)

end Transport

/-- The first result that makes no progress. -/
def firstFailure (calls : List WriteCall) : Option Int :=
  (calls.map (·.result)).find? (· ≤ 0)

/-- What the caller of a failed write of a transport finds. -/
structure Reported (p : Transport) (r : Traced Transport WriteCall Int) : Prop where
  returned : ∃ ret < 0, r.2.2 = .returns ret
  closed : r.1.tls.sockets = p.tls.sockets
  released : r.1.write_mutex = false

section Loop

/-- What the loop has come to, by its last result. -/
inductive LoopCases (s : WriteLoop) : Prop
  | unfailed (hcalls : ∀ call ∈ s.calls, 0 ≤ call.result) (h : s.control ≠ .exited)
  | exited (front : List WriteCall) (last : WriteCall) (hcalls : s.calls = front ++ [last])
      (hfront : ∀ call ∈ front, 0 ≤ call.result) (hlast : last.result = -1)
      (h : s.control = .exited)
  | failed (front : List WriteCall) (last : WriteCall) (hcalls : s.calls = front ++ [last])
      (hfront : ∀ call ∈ front, 0 ≤ call.result) (hlast : last.result < -1)
      (h : s.control = .left) (hcount : s.count = -1)

theorem loopCases_iteration {sslWrite : Nat → Int → Int} {buf_size : Int} {s : WriteLoop}
    (h : LoopCases s) : LoopCases (iteration sslWrite buf_size s) := by
  by_cases hs : s.control = .writing
  · have hcalls : ∀ call ∈ s.calls, 0 ≤ call.result := by
      cases h with
      | unfailed hcalls _ => exact hcalls
      | exited front last _ _ _ hexited => cases hs.symm.trans hexited
      | failed front last _ _ _ hleft _ => cases hs.symm.trans hleft
    by_cases htotal : s.total_count = buf_size
    · rw [iteration_stop hs htotal]
      exact .unfailed hcalls (by simp)
    · simp only [iteration, hs, if_neg htotal]
      generalize sslWrite s.calls.length (buf_size - s.count) = count
      by_cases hexit : count = -1
      · rw [if_pos hexit]
        exact .exited s.calls _ rfl hcalls hexit rfl
      · rw [if_neg hexit]
        by_cases hneg : count < 0
        · rw [if_pos hneg]
          exact .failed s.calls _ rfl hcalls (lt_of_le_of_ne (Int.le_sub_one_of_lt hneg) hexit)
            rfl rfl
        · rw [if_neg hneg]
          refine .unfailed (List.forall_mem_append.mpr ⟨hcalls, ?_⟩) (by simp)
          exact List.forall_mem_singleton.mpr (not_lt.mp hneg)
  · rw [iteration_of_not_writing hs]
    exact h

theorem loopCases_loopAfter (sslWrite : Nat → Int → Int) (buf_size : Int) (k : Nat) :
    LoopCases (loopAfter sslWrite buf_size k) := by
  induction k with
  | zero => exact .unfailed (fun _ h => absurd h List.not_mem_nil) nofun
  | succ k ih =>
      rw [loopAfter_succ]
      exact loopCases_iteration ih

theorem mem_of_firstFailure {calls : List WriteCall} {r : Int} (h : firstFailure calls = some r) :
    ∃ call ∈ calls, call.result = r :=
  List.mem_map.mp (List.mem_of_find?_eq_some h)

theorem loop_of_firstFailure {s : WriteLoop} (hs : LoopCases s) {r : Int}
    (hfirst : firstFailure s.calls = some r) (hneg : r < 0) :
    (∃ front, s.calls.map (·.result) = front ++ [r]) ∧
      (r = -1 ∧ s.control = .exited ∨ r ≠ -1 ∧ s.control = .left ∧ s.count = -1) := by
  obtain ⟨call, hmem, hresult⟩ := mem_of_firstFailure hfirst
  have hlastOf {front : List WriteCall} {last : WriteCall} (hcalls : s.calls = front ++ [last])
      (hfront : ∀ call ∈ front, 0 ≤ call.result) : last.result = r := by
    rw [hcalls, List.mem_append, List.mem_singleton] at hmem
    rcases hmem with hmem | rfl
    · exact absurd (hresult ▸ hfront call hmem) (not_le.mpr hneg)
    · exact hresult
  cases hs with
  | unfailed hcalls _ => exact absurd (hresult ▸ hcalls call hmem) (not_le.mpr hneg)
  | exited front last hcalls hfront hlast hexited =>
      have hr := hlastOf hcalls hfront
      refine ⟨⟨front.map (·.result), ?_⟩, .inl ⟨hr.symm.trans hlast, hexited⟩⟩
      rw [hcalls, List.map_append, List.map_singleton, hr]
  | failed front last hcalls hfront hlast hleft hcount =>
      have hr := hlastOf hcalls hfront
      refine ⟨⟨front.map (·.result), ?_⟩, .inr ⟨by omega, hleft, hcount⟩⟩
      rw [hcalls, List.map_append, List.map_singleton, hr]

end Loop

section Calls

variable {io : WriteIo} {buf_size : Nat} {p : Transport}

/-- The transport of a message on an established connection. -/
def opened (io : WriteIo) (t : Tls) : Tls := t.openSocket.openConnection (io.SSL_connect = 1)

theorem daapTCPConnect_cases (io : WriteIo) (t : Tls) :
    (∀ ret, (daapTCPConnect io t).2.2 = .returns ret → ret < 0) ∨
      daapTCPConnect io t = (opened io t, [.SSL_new .live], .returns 0) := by
  rw [daapTCPConnect]
  by_cases hsocket : io.socket < 0
  · rw [if_pos hsocket]
    exact .inl fun ret h => Ending.returns.inj h ▸ hsocket
  rw [if_neg hsocket]
  by_cases hconnect : io.connect ≠ 0
  · rw [if_pos hconnect]
    exact .inl fun ret h => Ending.returns.inj h ▸ by decide
  rw [if_neg hconnect]
  by_cases hctx : t.sslctx ≠ .live
  · rw [if_pos hctx]
    exact .inl fun ret h => by cases h
  rw [if_neg hctx]
  by_cases hshake : io.SSL_connect < 0
  · simp only [if_pos hshake]
    exact .inl fun ret h => Ending.returns.inj h ▸ by decide
  · simp only [if_neg hshake]
    exact .inr rfl

/-- Without the lock or without a connection nothing is written. -/
theorem daapTCPLogWrite_cases (io : WriteIo) (buf_size : Nat) (p : Transport) :
    (p.daapTCPLogWrite io buf_size).2.1 = [] ∨
      p.daapTCPLogWrite io buf_size =
        andThen (⟨(writeLoop io buf_size (opened io p.tls)).1, true⟩, (loopOf io buf_size).calls,
            (writeLoop io buf_size (opened io p.tls)).2.2)
          fun p count => (p.pthread_mutex_unlock, [], .returns count) := by
  by_cases hlocked : p.write_mutex = true
  · left
    rw [Transport.daapTCPLogWrite, Transport.pthread_mutex_lock, if_pos hlocked]
    rfl
  rw [Transport.daapTCPLogWrite, Transport.pthread_mutex_lock, if_neg hlocked,
    andThen_of_returns rfl]
  rcases daapTCPConnect_cases io p.tls with hfails | hconnected
  · left
    simp only [List.nil_append]
    cases hconnect : (daapTCPConnect io p.tls).2.2 with
    | returns ret =>
        rw [andThen_of_returns rfl, if_pos (hfails ret hconnect)]
        rfl
    | exits status => rfl
    | undefined => rfl
    | running => rfl
  · right
    rw [hconnected, andThen_of_returns rfl, if_neg (by decide)]
    rfl

/-- The mutex aside this is the function of the transport. -/
theorem daapTCPLogWrite_tls (hfree : p.write_mutex = false) :
    (p.daapTCPLogWrite io buf_size).1.tls = (TlsTransport.daapTCPLogWrite io buf_size p.tls).1 ∧
      (p.daapTCPLogWrite io buf_size).2.2 =
        (TlsTransport.daapTCPLogWrite io buf_size p.tls).2.2 := by
  rw [Transport.daapTCPLogWrite, Transport.pthread_mutex_lock, if_neg (by simp [hfree]),
    andThen_of_returns rfl, TlsTransport.daapTCPLogWrite]
  generalize daapTCPConnect io p.tls = connect
  obtain ⟨t, events, ending⟩ := connect
  cases ending with
  | returns ret =>
      dsimp only [andThen]
      by_cases hret : ret < 0
      · rw [if_pos hret, if_pos hret]
        exact ⟨rfl, rfl⟩
      · rw [if_neg hret, if_neg hret]
        cases (writeLoop io buf_size t).2.2 with
        | returns count => exact ⟨rfl, rfl⟩
        | exits status => exact ⟨rfl, rfl⟩
        | undefined => exact ⟨rfl, rfl⟩
        | running => exact ⟨rfl, rfl⟩
  | exits status => exact ⟨rfl, rfl⟩
  | undefined => exact ⟨rfl, rfl⟩
  | running => exact ⟨rfl, rfl⟩

theorem daapTCPLogWrite_rounds {rounds : Nat}
    (h : loopOf { io with rounds := rounds } buf_size = loopOf io buf_size) :
    p.daapTCPLogWrite { io with rounds := rounds } buf_size = p.daapTCPLogWrite io buf_size := by
  have hloop (t : Tls) :
      writeLoop { io with rounds := rounds } buf_size t = writeLoop io buf_size t := by
    rw [loopOf, loopOf] at h
    simp only [writeLoop, h]
  simp only [Transport.daapTCPLogWrite, h, hloop]
  rfl

theorem writeLoop_of_left {t : Tls} (h : (loopOf io buf_size).control = .left) :
    (writeLoop io buf_size t).1 = t.closeSocket ∧
      (writeLoop io buf_size t).2.2 = .returns (loopOf io buf_size).count := by
  rw [loopOf] at h
  rw [writeLoop, h]
  exact ⟨rfl, rfl⟩

theorem writeLoop_of_exited {t : Tls} (h : (loopOf io buf_size).control = .exited) :
    (writeLoop io buf_size t).2.2 = .exits 2 := by
  rw [loopOf] at h
  rw [writeLoop, h]

/-- A first failure that is negative is the result of the last call of `SSL_write`,
however long the call is looked at. If it is `-1` the process exits, otherwise the call
returns `-1` with the socket closed and the mutex released. -/
theorem daapTCPLogWrite_of_firstFailure (io : WriteIo) (buf_size : Nat) (p : Transport) {r : Int}
    (hfirst : firstFailure (p.daapTCPLogWrite io buf_size).2.1 = some r) (hneg : r < 0) :
    (∀ more, p.daapTCPLogWrite { io with rounds := io.rounds + more } buf_size =
        p.daapTCPLogWrite io buf_size) ∧
      (∃ front, (p.daapTCPLogWrite io buf_size).2.1.map (·.result) = front ++ [r]) ∧
      (r = -1 → (p.daapTCPLogWrite io buf_size).2.2 = .exits 2) ∧
      (r ≠ -1 → Reported p (p.daapTCPLogWrite io buf_size)) := by
  rcases daapTCPLogWrite_cases io buf_size p with hnone | hwrite
  · rw [hnone] at hfirst
    cases hfirst
  have hcalls : (p.daapTCPLogWrite io buf_size).2.1 = (loopOf io buf_size).calls := by
    rw [hwrite, andThen]
    split
    · exact List.append_nil _
    · rfl
    · rfl
    · rfl
  rw [hcalls] at hfirst ⊢
  obtain ⟨hlast, hends⟩ := loop_of_firstFailure (loopCases_loopAfter _ _ _) hfirst hneg
  refine ⟨fun more => daapTCPLogWrite_rounds ?_, hlast, fun hexit => ?_, fun hother => ?_⟩
  · have hdone : (loopOf io buf_size).control ≠ .writing := by
      rcases hends with ⟨-, h⟩ | ⟨-, h, -⟩
      · rw [loopOf, h]
        decide
      · rw [loopOf, h]
        decide
    have hlater := loopAfter_of_not_writing hdone more
    rw [loopOf, loopOf, ← hlater, Nat.add_right_comm]
  · have hcontrol := (hends.resolve_right fun h => h.1 hexit).2
    rw [hwrite, writeLoop_of_exited hcontrol]
    rfl
  · obtain ⟨-, hcontrol, hcount⟩ := hends.resolve_left fun h => hother h.1
    obtain ⟨hstate, hending⟩ := writeLoop_of_left (t := opened io p.tls) hcontrol
    rw [hwrite, hstate, hending, andThen_of_returns rfl]
    exact ⟨⟨_, by rw [loopOf, hcount]; decide, rfl⟩, rfl, rfl⟩

/-- A connection on which the second write fails with `result`. -/
def failingWrite (result : Int) : WriteIo :=
  { promptWrite with SSL_write := fun k _ => if k = 0 then 1 else result }

theorem daapTCPLogWrite_of_firstFailure_lost :
    Reported ⟨{ sslctx := .live }, false⟩
      (Transport.daapTCPLogWrite (failingWrite (-3)) 4 ⟨{ sslctx := .live }, false⟩) :=
  (daapTCPLogWrite_of_firstFailure (failingWrite (-3)) 4 _ (r := -3) (by decide) (by decide)).2.2.2
    (by decide)

/-- A result of `-1` ends the process instead of being reported. -/
theorem daapTCPLogWrite_exits :
    firstFailure (Transport.daapTCPLogWrite (failingWrite (-1)) 4
        ⟨{ sslctx := .live }, false⟩).2.1 = some (-1) ∧
      (Transport.daapTCPLogWrite (failingWrite (-1)) 4 ⟨{ sslctx := .live }, false⟩).2.2 =
        .exits 2 ∧
      ¬Reported ⟨{ sslctx := .live }, false⟩
        (Transport.daapTCPLogWrite (failingWrite (-1)) 4 ⟨{ sslctx := .live }, false⟩) := by
  refine ⟨by decide, by decide, fun h => ?_⟩
  obtain ⟨ret, -, hreturned⟩ := h.returned
  exact absurd hreturned nofun

end Calls

end DaapLog.WriteFailures

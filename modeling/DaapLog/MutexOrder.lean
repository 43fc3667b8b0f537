import DaapLog.LibraryThreads

/-!
The mutexes of the library under any threads and calls: each is held by one thread at a
time, and threads never wait for one another in a circle.
-/

namespace DaapLog.MutexOrder

open DaapLog.LibraryCalls
open DaapLog.LibraryThreads
open DaapLog.Runs
open DaapLog.Threads

/-- The mutex that is held around a log call: the end of the job is logged by
`daapFinalize`. -/
def around : Origin → List Mutex
  | .jobEnd => [.finalize_mutex]
  | _ => []

def Shutdown.held : Shutdown → List Mutex
  | .connect m => .write_mutex :: around m.origin
  | .finalize _ => [.finalize_mutex]

/-- The mutexes that a thread holds, the last one first. -/
def held : Point → List Mutex
  | .call _ => []
  | .log m => around m.origin
  | .warn m => .daap_log_print_mutex :: around m.origin
  | .build m => around m.origin
  | .transmit m _ _ => around m.origin
  | .socket m _ _ => .write_mutex :: around m.origin
  | .connect m _ => .write_mutex :: around m.origin
  | .SSL_new m _ => .write_mutex :: around m.origin
  | .SSL_connect m _ => .write_mutex :: around m.origin
  | .SSL_write m _ _ => .write_mutex :: around m.origin
  | .exit m => .write_mutex :: around m.origin
  | .close m => .write_mutex :: around m.origin
  | .unlockWrite m => .write_mutex :: around m.origin
  | .SSL_CTX_free at_ => Shutdown.held at_
  | .SSL_free at_ => Shutdown.held at_
  | .testCalled _ => [.init_mutex]
  | .nameHost _ => [.init_mutex]
  | .nameCluster _ => [.init_mutex]
  | .setUp _ => [.init_mutex]
  | .reportSetUp _ => [.init_mutex]
  | .reported _ => [.daap_tcp_print_mutex, .init_mutex]
  | .setCalled _ => [.init_mutex]
  | .unlockInit _ => [.init_mutex]
  | .leaveInit _ => [.init_mutex]
  | .rankZero _ => []
  | .mpiRank _ => []
  | .jobStart _ => []
  | .jobEnd _ _ => [.finalize_mutex]
  | .free _ _ => [.finalize_mutex]
  | .unlockFinalize _ => [.finalize_mutex]
  | .done _ => []

/-- Under `init_mutex` and `finalize_mutex` one more mutex is taken. -/
def rank : Mutex → Fin 2
  | .init_mutex => 0
  | .finalize_mutex => 0
  | .write_mutex => 1
  | .daap_log_print_mutex => 1
  | .daap_tcp_print_mutex => 1

theorem rank_around (origin : Origin) :
    ∀ m ∈ around origin, rank m < rank .write_mutex ∧ rank m < rank .daap_log_print_mutex := by
  cases origin with
  | jobStart => simp [around]
  | jobEnd => simp [around, rank]
  | caller => simp [around]

theorem keeps_enterCall (l : Library) (c : Call) : Keeps held rank [] (enterCall l c) := by
  cases c with
  | daapInit args => exact ⟨fun m hm => absurd hm List.not_mem_nil, rfl⟩
  | daapFinalize env io => exact ⟨fun m hm => absurd hm List.not_mem_nil, rfl⟩
  | daapSetRank rank => rfl
  | daapLogWrite formatted io => rfl
  | daapLogRawWrite formatted io => rfl
  | daapLogHeartbeat io => rfl
  | daapLogJobStart io => rfl
  | daapLogJobDuration cur_time io => rfl
  | daapLogJobEnd io => rfl

theorem held_afterWrite (m : Message) (buf_size : Nat) (loop : TcpLogWrite.WriteLoop) :
    held (.afterWrite m buf_size loop) = .write_mutex :: around m.origin := by
  rw [Point.afterWrite]
  cases loop.control with
  | writing => rfl
  | left => rfl
  | exited => rfl

theorem held_afterLog (ret_val : Int) (origin : Origin) :
    held (afterLog ret_val origin) = around origin := by
  cases origin with
  | jobStart => rfl
  | jobEnd => rfl
  | caller => rfl

theorem held_next (at_ : Shutdown) : held at_.next = Shutdown.held at_ := by
  cases at_ with
  | connect m => rfl
  | finalize ret_val => rfl

theorem ordered_code : Ordered code held rank := by
  intro l control
  cases control with
  | call c => exact keeps_enterCall l c
  | log m =>
      rw [code]
      split
      · exact held_afterLog _ _
      · split
        · exact ⟨fun mutex hmutex => (rank_around m.origin mutex hmutex).2, rfl⟩
        · rfl
  | warn m => rfl
  | build m =>
      rw [code]
      split
      · trivial
      · rfl
  | transmit m line influx_str =>
      rw [code]
      split
      · exact held_afterLog _ _
      · exact held_afterLog _ _
      · exact ⟨fun mutex hmutex => (rank_around m.origin mutex hmutex).1, rfl⟩
  | socket m line buf_size =>
      rw [code]
      split
      · rfl
      · rfl
  | connect m buf_size =>
      rw [code]
      split
      · rfl
      · rfl
  | SSL_new m buf_size =>
      rw [code]
      split
      · trivial
      · rfl
  | SSL_connect m buf_size =>
      rw [code]
      split
      · rfl
      · rfl
  | SSL_write m buf_size loop =>
      rw [code]
      split
      · rfl
      · exact held_afterWrite m buf_size _
  | exit m => trivial
  | close m => rfl
  | unlockWrite m => exact congrArg (List.cons Mutex.write_mutex) (held_afterLog _ _).symm
  | SSL_CTX_free at_ =>
      rw [code]
      split
      · trivial
      · rfl
      · rfl
  | SSL_free at_ =>
      rw [code]
      split
      · trivial
      · exact held_next at_
      · exact held_next at_
  | testCalled args =>
      rw [code]
      split
      · rfl
      · rfl
  | nameHost args =>
      rw [code]
      split
      · rfl
      · rfl
  | nameCluster args => rfl
  | setUp args =>
      rw [code]
      split
      · split
        · change held (if _ then _ else _) = _
          split
          · rfl
          · rfl
        · trivial
      · rfl
  | reportSetUp args => exact ⟨by simp [held, rank], rfl⟩
  | reported args => rfl
  | setCalled args => rfl
  | unlockInit args => rfl
  | leaveInit ret_val => rfl
  | rankZero args => rfl
  | mpiRank args => rfl
  | jobStart args =>
      rw [code]
      split
      · rfl
      · rfl
  | jobEnd env io =>
      rw [code]
      split
      · rfl
      · rfl
  | free fields ret_val =>
      cases fields with
      | nil => rfl
      | cons field fields =>
          rw [code]
          split
          · trivial
          · rfl
  | unlockFinalize ret_val => rfl
  | done ret_val => rfl

theorem owned_calls {ι : Type*} {calls : ι → List Call} :
    Owned held (fun _ => false) fun i => (calls i).map .call := by
  refine owned_start fun i control hcontrol => ?_
  obtain ⟨c, -, rfl⟩ := List.mem_map.mp hcontrol
  rfl

section Schedules

variable {ι : Type*} [DecidableEq ι]

theorem owned_of_run {l : Library} {calls : ι → List Call} {schedule : List ι}
    {r : Process ι Mutex Library Event Point (Option Int) × List (ι × Event)}
    (hrun : run (step code) (Process.start l fun i => (calls i).map .call) schedule = some r) :
    Owned held r.1.locked r.1.threads :=
  owned_run ordered_code owned_calls hrun

/-- Whatever threads call whatever functions, and however their steps are mixed: a mutex
is locked while exactly one thread holds it, and as long as the process goes on and a
thread has something left to do, some thread can do its next step. -/
theorem never_deadlocked {l : Library} {calls : ι → List Call} {schedule : List ι}
    {r : Process ι Mutex Library Event Point (Option Int) × List (ι × Event)}
    (hrun : run (step code) (Process.start l fun i => (calls i).map .call) schedule = some r) :
    (∀ mutex, r.1.locked mutex = true ↔ ∃! i, mutex ∈ holding held (r.1.threads i)) ∧
      (r.1.ending = .running → (∃ i, r.1.threads i ≠ []) →
        ∃ i next, step code r.1 i = some next) := by
  have howned := owned_of_run hrun
  refine ⟨fun mutex => ?_, fun halive hcalls => exists_step ordered_code howned halive hcalls⟩
  rw [howned.locked]
  constructor
  · rintro ⟨i, hi⟩
    exact ⟨i, hi, fun j hj => howned.unique mutex j i hj hi⟩
  · rintro ⟨i, hi, -⟩
    exact ⟨i, hi⟩

/-- Two threads that initialise the library. -/
def initialising : Fin 2 → List Call := fun _ => [.daapInit syslogInit]

/-- The second thread waits for the first one. -/
theorem never_deadlocked_pair :
    ∃ r, run (step code) (Process.start {} fun i => (initialising i).map .call) [0, 0, 0] = some r ∧
      step code r.1 1 = none ∧ (∃! i, .init_mutex ∈ holding held (r.1.threads i)) ∧
      ∃ i next, step code r.1 i = some next := by
  have hevaluated : (run (step code) (Process.start {} fun i => (initialising i).map .call)
      [0, 0, 0]).any (fun r => (step code r.1 1).isNone && r.1.locked .init_mutex &&
        r.1.ending = .running && !(r.1.threads 0).isEmpty) = true := by
    decide +kernel
  obtain ⟨r, hrun, hr⟩ := (Option.any_eq_true _ _).mp hevaluated
  simp only [Bool.and_eq_true, Option.isNone_iff_eq_none, decide_eq_true_eq, Bool.not_eq_true',
    List.isEmpty_eq_false_iff] at hr
  obtain ⟨⟨⟨hwaits, hlocked⟩, halive⟩, hthread⟩ := hr
  obtain ⟨hheld, hgoes⟩ := never_deadlocked hrun
  exact ⟨r, hrun, hwaits, (hheld .init_mutex).mp hlocked, hgoes halive ⟨0, hthread⟩⟩

end Schedules

end DaapLog.MutexOrder

import DaapLog.ByteBuffers
import DaapLog.LibraryCalls

/-!
The host name of the library: `daap_gethostname` asks the system with buffers of growing
length, and tells a complete name from a shortened one by its length alone.
-/

namespace DaapLog.HostNames

open DaapLog.ByteBuffers
open DaapLog.CStrings
open DaapLog.LibraryCalls

/-- The value where `HOST_NAME_MAX` is not larger. -/
def LOCAL_MAXHOSTNAMELEN : Nat := 257

def NUM_TRIES_FOR_NULL_HOSTNAME : Nat := 8

inductive Errno
  | EINVAL
  | ENAMETOOLONG
  | other
  deriving DecidableEq

/-- What a call of `gethostname` returns and leaves in the bytes it is offered. -/
structure HostnameCall where
  ret_val : Int
  errno : Errno
  buf : Text

/-- The system calls: `gethostname` for a length and `realloc` for a size. -/
structure HostSystem where
  calloc : Bool
  realloc : Nat → Bool
  gethostname : Nat → HostnameCall

/-- The loop with a buffer of `length` bytes and a number of tries that are left. -/
def tryHostname (sys : HostSystem) : Nat → Nat → Except HostnameError Text
  | 0, _ => .error .DAAP_ERROR
  | tries + 1, length =>
      let call := sys.gethostname (length - 1)
      let resize :=
        if sys.realloc (length * 2) then tryHostname sys tries (length * 2)
        else .error .DAAP_ERROR_OUT_OF_MEMORY
      if call.ret_val = 0 then
        let count := (stringIn (call.buf ++ ['\x00'])).length
        if 0 < count ∧ count < length - 1 then .ok (stringIn (call.buf ++ ['\x00']))
        else if ¬(count = 0 ∨ count = length - 1) then .error .DAAP_ERROR
        else resize
      else if ¬(call.errno = .EINVAL ∨ call.errno = .ENAMETOOLONG) then
        .error .DAAP_ERROR_IN_ERRNO
      else resize

def daap_gethostname (sys : HostSystem) : Except HostnameError Text :=
  if sys.calloc then tryHostname sys NUM_TRIES_FOR_NULL_HOSTNAME LOCAL_MAXHOSTNAMELEN
  else .error .DAAP_ERROR_OUT_OF_MEMORY

/-- A call that succeeds leaves the complete name if there is room for it and its NUL,
and else the front of the name, which ends with a NUL or fills all bytes. -/
structure Conforms (hostname : Text) (namelen : Nat) (call : HostnameCall) : Prop where
  length : call.buf.length = namelen
  complete : call.ret_val = 0 → hostname.length < namelen → StartsWith hostname call.buf
  shortened : call.ret_val = 0 → namelen ≤ hostname.length →
    call.buf = hostname.take namelen ∨ ∃ k < namelen, StartsWith (hostname.take k) call.buf

/-- Every name that is handed out is the complete one. -/
def NeverCut (sys : HostSystem) (hostname : Text) : Prop :=
  ∀ name, daap_gethostname sys = .ok name → name = hostname

/-- The length of the buffer of a try. -/
def bufferLength (i : Nat) : Nat := LOCAL_MAXHOSTNAMELEN * 2 ^ i

/-- A call makes the loop go on: it asks for more room, leaves no name or fills all bytes. -/
def Resizes (call : HostnameCall) : Prop :=
  call.ret_val ≠ 0 ∧ (call.errno = .EINVAL ∨ call.errno = .ENAMETOOLONG) ∨
    call.ret_val = 0 ∧ (call.buf.head? = some '\x00' ∨ '\x00' ∉ call.buf)

/-- A call leaves a part of the name that is too long for its buffer, with a NUL inside
the length it was given. -/
def Shortens (hostname : Text) (namelen : Nat) (call : HostnameCall) : Prop :=
  call.ret_val = 0 ∧ namelen ≤ hostname.length ∧
    ∃ k, 0 < k ∧ k < namelen ∧ StartsWith (hostname.take k) call.buf

/-- The tries that the loop makes. -/
def Reached (sys : HostSystem) (i : Nat) : Prop :=
  sys.calloc = true ∧ ∀ j < i,
    Resizes (sys.gethostname (bufferLength j - 1)) ∧ sys.realloc (bufferLength (j + 1)) = true

/-- A call leaves a name that the loop takes. -/
def Settles (call : HostnameCall) : Prop :=
  call.ret_val = 0 ∧ call.buf.head? ≠ some '\x00' ∧ '\x00' ∈ call.buf

section Tries

variable {sys : HostSystem} {hostname : Text}

theorem not_resizes_of_settles {call : HostnameCall} (h : Settles call) : ¬Resizes call := by
  obtain ⟨hret, hhead, hnul⟩ := h
  rintro (⟨hne, -⟩ | ⟨-, hempty | hfull⟩)
  · exact hne hret
  · exact hhead hempty
  · exact hfull hnul

/-- What one round of the loop does with a buffer one byte longer than it offers. -/
theorem tryHostname_succ (tries namelen : Nat)
    (hlength : (sys.gethostname namelen).buf.length = namelen) (hpos : 0 < namelen) :
    (Settles (sys.gethostname namelen) ∧
      tryHostname sys (tries + 1) (namelen + 1) =
        .ok (stringIn (sys.gethostname namelen).buf)) ∨
    (Resizes (sys.gethostname namelen) ∧
      tryHostname sys (tries + 1) (namelen + 1) =
        if sys.realloc ((namelen + 1) * 2) then tryHostname sys tries ((namelen + 1) * 2)
        else .error .DAAP_ERROR_OUT_OF_MEMORY) ∨
    (¬Settles (sys.gethostname namelen) ∧ ¬Resizes (sys.gethostname namelen) ∧
      tryHostname sys (tries + 1) (namelen + 1) = .error .DAAP_ERROR_IN_ERRNO) := by
  rw [tryHostname, Nat.add_sub_cancel]
  generalize sys.gethostname namelen = call at hlength ⊢
  simp only [stringIn_concat]
  have hbuf : call.buf ≠ [] := by
    intro h
    rw [h, List.length_nil] at hlength
    omega
  have hcount := length_stringIn_pos_iff hbuf
  have hshort := length_stringIn_lt_iff call.buf
  have hle := length_stringIn_le call.buf
  rw [hlength] at hshort hle
  split
  · next hret =>
      split
      · next hgood => exact .inl ⟨⟨hret, hcount.mp hgood.1, hshort.mp hgood.2⟩, rfl⟩
      · next hbad =>
          rw [if_neg (by omega)]
          refine .inr (.inl ⟨.inr ⟨hret, ?_⟩, rfl⟩)
          by_cases hhead : call.buf.head? = some '\x00'
          · exact .inl hhead
          · exact .inr fun hnul => hbad ⟨hcount.mpr hhead, hshort.mpr hnul⟩
  · next hret =>
      split
      · next herrno =>
          refine .inr (.inr ⟨fun h => hret h.1, ?_, rfl⟩)
          rintro (⟨-, h⟩ | ⟨h, -⟩)
          · exact herrno h
          · exact hret h
      · next herrno => exact .inr (.inl ⟨.inl ⟨hret, not_not.mp herrno⟩, rfl⟩)

/-- What settles the tries is the first one, or one behind a first one of the other kind. -/
theorem exists_try_succ_iff {before settles : Nat → Prop} {tries : Nat} :
    (∃ i < tries + 1, (∀ j < i, before j) ∧ settles i) ↔
      settles 0 ∨ before 0 ∧ ∃ i < tries, (∀ j < i, before (j + 1)) ∧ settles (i + 1) := by
  constructor
  · rintro ⟨_ | i, hi, hbefore, hsettles⟩
    · exact .inl hsettles
    · refine .inr ⟨hbefore 0 (Nat.succ_pos i), i, by omega, fun j hj => ?_, hsettles⟩
      exact hbefore (j + 1) (by omega)
  · rintro (hsettles | ⟨hfirst, i, hi, hbefore, hsettles⟩)
    · exact ⟨0, Nat.succ_pos tries, fun j hj => absurd hj (Nat.not_lt_zero j), hsettles⟩
    · refine ⟨i + 1, by omega, ?_, hsettles⟩
      rintro (_ | j) hj
      · exact hfirst
      · exact hbefore j (by omega)

/-- A name is handed out exactly by the first try that does not ask for more room. -/
theorem tryHostname_eq_ok_iff
    (hlength : ∀ namelen, (sys.gethostname namelen).buf.length = namelen) {tries length : Nat}
    (hpos : 1 < length) (name : Text) :
    tryHostname sys tries length = .ok name ↔
      ∃ i < tries, (∀ j < i, Resizes (sys.gethostname (length * 2 ^ j - 1)) ∧
          sys.realloc (length * 2 ^ (j + 1)) = true) ∧
        Settles (sys.gethostname (length * 2 ^ i - 1)) ∧
        name = stringIn (sys.gethostname (length * 2 ^ i - 1)).buf := by
  induction tries generalizing length with
  | zero => simp [tryHostname]
  | succ tries ih =>
      obtain ⟨namelen, rfl⟩ := Nat.exists_eq_add_one_of_ne_zero (show length ≠ 0 by omega)
      have hdouble (i : Nat) : (namelen + 1) * 2 ^ (i + 1) = (namelen + 1) * 2 * 2 ^ i := by
        rw [pow_succ']
        ring
      rw [exists_try_succ_iff]
      simp only [hdouble, pow_zero, mul_one, Nat.add_sub_cancel]
      rcases @tryHostname_succ sys tries namelen (hlength namelen) (by omega) with
        ⟨hends, hround⟩ | ⟨hmore, hround⟩ | ⟨hends, hmore, hround⟩
      · have hmore := not_resizes_of_settles hends
        rw [hround, Except.ok.injEq]
        simp only [hends, hmore, true_and, false_and, or_false]
        exact eq_comm
      · have hends : ¬Settles (sys.gethostname namelen) :=
          fun h => not_resizes_of_settles h hmore
        rw [hround]
        simp only [hends, hmore, true_and, false_and, false_or]
        split
        · next hrealloc =>
            rw [ih (by omega)]
            simp only [hrealloc, true_and]
        · next hrealloc => exact iff_of_false (by simp) fun h => hrealloc h.1
      · rw [hround]
        simp only [hends, hmore, false_and, or_false]
        exact iff_of_false (by simp) id

theorem daap_gethostname_eq_ok_iff
    (hlength : ∀ namelen, (sys.gethostname namelen).buf.length = namelen) (name : Text) :
    daap_gethostname sys = .ok name ↔
      ∃ i < NUM_TRIES_FOR_NULL_HOSTNAME, Reached sys i ∧
        Settles (sys.gethostname (bufferLength i - 1)) ∧
        name = stringIn (sys.gethostname (bufferLength i - 1)).buf := by
  rw [daap_gethostname]
  split
  · next hcalloc =>
      rw [tryHostname_eq_ok_iff hlength (by decide)]
      simp only [Reached, hcalloc, true_and]
      rfl
  · next hcalloc =>
      refine iff_of_false (by simp) ?_
      rintro ⟨i, -, ⟨h, -⟩, -⟩
      exact hcalloc h

end Tries

section Names

variable {hostname : Text} {namelen : Nat} {call : HostnameCall}

/-- A name that is taken is complete unless the system has shortened it. -/
theorem stringIn_eq_iff (hname : '\x00' ∉ hostname) (hcall : Conforms hostname namelen call)
    (h : Settles call) : stringIn call.buf = hostname ↔ ¬Shortens hostname namelen call := by
  obtain ⟨hret, hhead, hnul⟩ := h
  rcases lt_or_ge hostname.length namelen with hroom | hsmall
  · refine iff_of_true (stringIn_of_startsWith hname (hcall.complete hret hroom)) ?_
    rintro ⟨-, hsmall, -⟩
    omega
  · rcases hcall.shortened hret hsmall with hfull | ⟨k, hk, hfront⟩
    · rw [hfull] at hnul
      exact absurd (List.mem_of_mem_take hnul) hname
    · have hcut := stringIn_of_startsWith (fun h => hname (List.mem_of_mem_take h)) hfront
      have hpos : 0 < k := by
        refine Nat.pos_of_ne_zero ?_
        rintro rfl
        obtain ⟨rest, hbuf⟩ := hfront
        rw [← hbuf] at hhead
        exact hhead rfl
      refine iff_of_false (fun heq => ?_) (not_not.mpr ⟨hret, hsmall, k, hpos, hk, hfront⟩)
      have hlength := congrArg List.length (hcut.symm.trans heq)
      rw [List.length_take] at hlength
      omega

theorem settles_of_shortens (hname : '\x00' ∉ hostname) (h : Shortens hostname namelen call) :
    Settles call := by
  obtain ⟨hret, hsmall, k, hpos, hk, rest, hbuf⟩ := h
  refine ⟨hret, ?_, ?_⟩
  · rw [← hbuf]
    rcases hostname with _ | ⟨c, hostname⟩
    · rw [List.length_nil] at hsmall
      omega
    · obtain ⟨k, rfl⟩ := Nat.exists_eq_add_one_of_ne_zero (Nat.ne_of_gt hpos)
      rw [List.take_succ_cons, List.cons_append, List.cons_append, List.head?_cons]
      rintro heq
      exact hname (Option.some.inj heq ▸ List.mem_cons_self)
  · rw [← hbuf]
    simp

end Names

/-- For every host name and every system that conforms the name handed out is complete
unless, at a try that the loop makes, the system shortens the name and ends it with a NUL
inside the length it was given. -/
theorem neverCut_iff {sys : HostSystem} {hostname : Text} (hname : '\x00' ∉ hostname)
    (hsys : ∀ namelen, Conforms hostname namelen (sys.gethostname namelen)) :
    NeverCut sys hostname ↔
      ∀ i < NUM_TRIES_FOR_NULL_HOSTNAME, Reached sys i →
        ¬Shortens hostname (bufferLength i - 1) (sys.gethostname (bufferLength i - 1)) := by
  have hok := daap_gethostname_eq_ok_iff fun namelen => (hsys namelen).length
  constructor
  · intro h i hi hreached hshortens
    have hsettles := settles_of_shortens hname hshortens
    have hcomplete := h _ ((hok _).mpr ⟨i, hi, hreached, hsettles, rfl⟩)
    exact (stringIn_eq_iff hname (hsys _) hsettles).mp hcomplete hshortens
  · intro h name hname_ok
    obtain ⟨i, hi, hreached, hsettles, rfl⟩ := (hok name).mp hname_ok
    exact (stringIn_eq_iff hname (hsys _) hsettles).mpr (h i hi hreached)

/-- A system that fails if there is no room for the name and its NUL. -/
def failingSystem (hostname : Text) : HostSystem where
  calloc := true
  realloc := fun _ => true
  gethostname := fun namelen =>
    { ret_val := if hostname.length < namelen then 0 else -1
      errno := .ENAMETOOLONG
      buf := (hostname ++ List.replicate namelen '\x00').take namelen }

/-- A system that always leaves a NUL in the last byte. -/
def endingSystem (hostname : Text) : HostSystem where
  calloc := true
  realloc := fun _ => true
  gethostname := fun namelen =>
    { ret_val := 0
      errno := .other
      buf := (hostname.take (namelen - 1) ++ List.replicate namelen '\x00').take namelen }

theorem startsWith_take {name : Text} {namelen : Nat} (hroom : name.length < namelen) :
    StartsWith name ((name ++ List.replicate namelen '\x00').take namelen) := by
  obtain ⟨rest, rfl⟩ := Nat.exists_eq_add_of_lt hroom
  refine ⟨List.replicate rest '\x00', ?_⟩
  rw [List.take_append, List.take_of_length_le (by omega), List.take_replicate,
    show min (name.length + rest + 1 - name.length) (name.length + rest + 1) = 1 + rest by omega,
    List.replicate_add, List.append_assoc]
  rfl

theorem length_take_zeros (name : Text) (namelen : Nat) :
    ((name ++ List.replicate namelen '\x00').take namelen).length = namelen := by
  rw [List.length_take, List.length_append, List.length_replicate]
  omega

theorem conforms_failingSystem (hostname : Text) (namelen : Nat) :
    Conforms hostname namelen ((failingSystem hostname).gethostname namelen) where
  length := length_take_zeros hostname namelen
  complete := fun _ hroom => startsWith_take hroom
  shortened := by
    intro hret hsmall
    rw [failingSystem] at hret
    dsimp only at hret
    rw [if_neg (by omega)] at hret
    exact absurd hret (by decide)

theorem conforms_endingSystem (hostname : Text) (namelen : Nat) :
    Conforms hostname namelen ((endingSystem hostname).gethostname namelen) where
  length := length_take_zeros _ namelen
  complete := by
    intro _ hroom
    have hall : hostname.take (namelen - 1) = hostname := List.take_of_length_le (by omega)
    rw [endingSystem]
    dsimp only
    rw [hall]
    exact startsWith_take hroom
  shortened := by
    intro _ hsmall
    rcases Nat.eq_zero_or_pos namelen with rfl | hpos
    · exact .inl (by simp [endingSystem])
    · refine .inr ⟨namelen - 1, by omega, startsWith_take ?_⟩
      rw [List.length_take]
      omega

/-- A host name of 300 characters comes out whole with the second buffer. -/
theorem neverCut_failingSystem :
    daap_gethostname (failingSystem (List.replicate 300 'n')) = .ok (List.replicate 300 'n') ∧
      Reached (failingSystem (List.replicate 300 'n')) 1 ∧
      NeverCut (failingSystem (List.replicate 300 'n')) (List.replicate 300 'n') := by
  have hname : '\x00' ∉ List.replicate 300 'n' := by
    rw [List.mem_replicate]
    decide
  have hfirst : Resizes ((failingSystem (List.replicate 300 'n')).gethostname 256) := by
    refine .inl ⟨?_, .inr rfl⟩
    decide +kernel
  refine ⟨by decide +kernel, ⟨rfl, fun j hj => ?_⟩,
    (neverCut_iff hname (conforms_failingSystem (List.replicate 300 'n'))).mpr ?_⟩
  · obtain rfl := Nat.lt_one_iff.mp hj
    exact ⟨hfirst, rfl⟩
  · rintro i - - ⟨hret, hsmall, -⟩
    rw [failingSystem] at hret
    dsimp only at hret
    rw [if_neg (by omega)] at hret
    exact absurd hret (by decide)

/-- A host name of 256 characters comes out with 255. -/
theorem neverCut_fails_for_ending :
    (∀ namelen, Conforms (List.replicate 256 'n') namelen
        ((endingSystem (List.replicate 256 'n')).gethostname namelen)) ∧
      ¬NeverCut (endingSystem (List.replicate 256 'n')) (List.replicate 256 'n') := by
  have hconforms := conforms_endingSystem (List.replicate 256 'n')
  have hname : '\x00' ∉ List.replicate 256 'n' := by
    rw [List.mem_replicate]
    decide
  have hshortens : Shortens (List.replicate 256 'n') 256
      ((endingSystem (List.replicate 256 'n')).gethostname 256) := by
    refine ⟨rfl, ?_, 255, by decide, by decide, startsWith_take ?_⟩
    · rw [List.length_replicate]
    · rw [List.length_take, List.length_replicate]
      decide
  have hsettles := settles_of_shortens hname hshortens
  refine ⟨hconforms, fun h => ?_⟩
  have hcomplete := h _ ((daap_gethostname_eq_ok_iff (fun namelen => (hconforms namelen).length)
    _).mpr ⟨0, by decide, ⟨rfl, fun j hj => absurd hj (Nat.not_lt_zero j)⟩, hsettles, rfl⟩)
  exact (stringIn_eq_iff hname (hconforms 256) hsettles).mp hcomplete hshortens

end DaapLog.HostNames

import DaapLog.Runs
import DaapLog.TlsTransport

/-!
Sockets and connection objects over a sequence of messages: a message that gets a
socket leaves one of the two behind.
-/

namespace DaapLog.TransportResources

open DaapLog.Runs
open DaapLog.TlsTransport
open DaapLog.TracedCalls
open DaapLog.BuildInflux (DAAP_ERROR)

/-- A message that is handed to the transport: its size and the results of its calls. -/
structure Message where
  io : WriteIo
  buf_size : Nat

def sendMessage (t : Tls) (m : Message) : Option (Tls × List TlsEvent) :=
  match daapTCPLogWrite m.io m.buf_size t with
  | (t, events, .returns _) => some (t, events)
  | _ => none

def SameResources (before after : Tls) : Prop :=
  after.sockets = before.sockets ∧ after.connections = before.connections

theorem sendMessage_sameResources_iff {t : Tls} {m : Message} {r : Tls × List TlsEvent}
    (h : sendMessage t m = some r) : SameResources t r.1 ↔ m.io.socket < 0 := by
  have hcases := daapTCPLogWrite_cases m.io m.buf_size t
  rw [sendMessage] at h
  generalize daapTCPLogWrite m.io m.buf_size t = result at h hcases
  cases hcases with
  | noSocket hsocket =>
      obtain rfl := Option.some.inj h
      exact iff_of_true ⟨rfl, rfl⟩ hsocket
  | noServer hsocket hconnect =>
      obtain rfl := Option.some.inj h
      exact iff_of_false (fun h => absurd h.1 (Nat.succ_ne_self _)) (not_lt.mpr hsocket)
  | noContext hreaches hctx => exact absurd h nofun
  | noHandshake hreaches hctx hshake =>
      obtain rfl := Option.some.inj h
      exact iff_of_false (fun h => absurd h.1 (Nat.succ_ne_self _)) (not_lt.mpr hreaches.1)
  | connected hreaches hctx hshake =>
      split at h
      · next state events ret heq =>
          obtain ⟨rfl, hrest⟩ := Prod.mk.inj heq
          obtain ⟨-, hret⟩ := Prod.mk.inj hrest
          obtain rfl := Option.some.inj h
          refine iff_of_false (fun h => ?_) (not_lt.mpr hreaches.1)
          rw [SameResources, writeLoop_returns hret] at h
          exact absurd h.2 (Nat.succ_ne_self _)
      · exact absurd h nofun

def LeavesNothing (t : Tls) (m : Message) : Prop :=
  ∀ r, sendMessage t m = some r → SameResources t r.1

/-- Over a sequence of calls that return: nothing accumulates exactly if none of them
gets a socket. -/
theorem leavesNothing_throughout_iff {t : Tls} {messages : List Message}
    {r : Tls × List TlsEvent} (hrun : run sendMessage t messages = some r) :
    Throughout sendMessage (fun _ => LeavesNothing) t messages ↔
      ∀ m ∈ messages, m.io.socket < 0 := by
  constructor
  · intro h m hm
    obtain ⟨past, back, rfl⟩ := List.append_of_mem hm
    rw [run_append, Option.bind_eq_some_iff] at hrun
    obtain ⟨before, hbefore, hrun⟩ := hrun
    obtain ⟨rest, hrest, -⟩ := Option.map_eq_some_iff.mp hrun
    obtain ⟨after, hafter, -⟩ := Option.bind_eq_some_iff.mp hrest
    exact (sendMessage_sameResources_iff hafter).mp (h past m back rfl before hbefore after hafter)
  · rintro h past m back rfl before - after hafter
    exact (sendMessage_sameResources_iff hafter).mpr (h m (by simp))

def noSocketWrite : WriteIo := { promptWrite with socket := -1 }

theorem leavesNothing_throughout_no_socket :
    Throughout sendMessage (fun _ => LeavesNothing) { sslctx := .live }
      [⟨noSocketWrite, 60⟩, ⟨noSocketWrite, 60⟩] :=
  (leavesNothing_throughout_iff rfl).mpr (by decide)

/-- A message that is delivered leaves its connection object behind. -/
theorem leavesNothing_fails_on_delivery :
    ¬Throughout sendMessage (fun _ => LeavesNothing) { sslctx := .live } [⟨promptWrite, 60⟩] := by
  intro h
  have hsame := h [] ⟨promptWrite, 60⟩ [] rfl _ rfl _ rfl
  exact absurd hsame.2 (by decide)

end DaapLog.TransportResources

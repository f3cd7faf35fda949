import Mathlib.Data.List.Dedup
import Mathlib.Data.List.Perm.Subperm
import Nwchecker.Udp.Accept
import Nwchecker.Udp.Client

/-!
# Acks over UDP

One UDP client, the server, and a network between them that alters nothing but may lose, repeat and
reorder datagrams in both directions: whatever was sent once can arrive at any later moment, any
number of times or never.

A package is told from another by its timestamp only, and all packages of a burst may have the same
one. An ack that comes twice is therefore taken for the ack of another package.
`acks_not_overcounted` says what keeps the count right: that no second ack of a package takes a
package out.
-/

namespace Nwchecker

open Doubles Framing Machine

/-! ## The machine -/

/-- The client and the server with what was sent between them. Package `k` is `client.sends[k]`. -/
structure UdpLink where
  client : UdpClient
  server : UdpServer
  /-- The address of the client, as the server sees it. -/
  source : SockAddr
  /-- The packages that the server received, each time it did. -/
  received : List Nat
  /-- The acks that the server sent, each with the number of the package it is for. -/
  acks : List (Nat × List UInt8)
  /-- How many packages acks took out of `sent_queue`. -/
  removed : Nat
  /-- The packages whose acks did, one for each that was taken out. -/
  credited : List Nat

namespace UdpLink

inductive Event where
  /-- Something happens at the client that brings no datagram: workers, output, a failed receive. -/
  | client (e : UdpClient.Event)
  /-- The network delivers package `k` to the server. -/
  | package (k : Nat) (env : AcceptEnv)
  /-- The network delivers the ack number `j` to the client. -/
  | ack (j : Nat) (recvTs : UInt32)

/-- The event brings no datagram. -/
def Quiet : UdpClient.Event → Prop
  | .input call _ => UdpClient.datagramOf call = []
  | _ => True

instance (e : UdpClient.Event) : Decidable (Quiet e) :=
  match e with
  | .input call _ => inferInstanceAs (Decidable (UdpClient.datagramOf call = []))
  | .output _ => isTrue trivial
  | .tick _ => isTrue trivial
  | .stat _ => isTrue trivial

/-- The ack that a call of `sendto` put on the network. -/
def sentAck (k : Nat) : Option SendRecord → List (Nat × List UInt8)
  | some r => if 0 ≤ r.rc then [(k, r.buffer)] else []
  | none => []

/-- After the client has processed an ack for package `k`. -/
def afterAck (l : UdpLink) (k : Nat) (c : UdpClient) : UdpLink :=
  let gone := l.client.conn.qos.sentQueue.length - c.conn.qos.sentQueue.length
  { l with
    client := c
    removed := l.removed + gone
    credited := l.credited ++ List.replicate gone k }

def step (l : UdpLink) : Event → Option UdpLink
  | .client e =>
    if Quiet e then (l.client.step e).map fun c => { l with client := c } else none
  | .package k env =>
    match l.client.sends[k]?, nwcUdpHandleInput l.server.io with
    | some r, some .onAccept =>
      -- a failed `sendto` put nothing on the network
      if 0 ≤ r.rc then
        let out := nwcConnectionUdpAccept l.server (.done r.buffer) l.source env
        some
          { l with
            server := out.1
            received := l.received ++ [k]
            acks := l.acks ++ sentAck k out.2 }
      else none
    | _, _ => none
  | .ack j recvTs =>
    match l.acks[j]? with
    | some (k, bytes) => (l.client.step (.input (.done bytes) recvTs)).map (l.afterAck k)
    | none => none

/-- A client and a server that have just been started. -/
def start (client : UdpClient) (server : UdpServer) (source : SockAddr) : UdpLink where
  client := client
  server := server
  source := source
  received := []
  acks := []
  removed := 0
  credited := []

/-! ## The property and the condition -/

/-- No more packages were taken out as acknowledged than the server received. -/
def NotOvercounted (l : UdpLink) : Prop := l.removed ≤ l.received.dedup.length

/--
An ack that the client reads takes a package out only if no ack for the same package has done so
before: either this is the first one that counts, or nothing with its timestamp waits. A client
that is gone reads nothing.
-/
def CountsOnce (l : UdpLink) : Event → Prop
  | .ack j _ => l.client.fate = .running → ∀ a ∈ l.acks[j]?, a.1 ∉ l.credited ∨
      ∀ e ∈ l.client.conn.qos.sentQueue,
        e.message.hdr.timestamp ≠ (NwcQosHdr.ofBytes a.2).ackTimestamp
  | _ => True

instance (l : UdpLink) (e : Event) : Decidable (l.CountsOnce e) :=
  match e with
  | .ack j _ => inferInstanceAs (Decidable (_ → ∀ a ∈ l.acks[j]?, _ ∨ _))
  | .client _ => isTrue trivial
  | .package _ _ => isTrue trivial

/-! ## The invariant -/

/-- Every package taken out is on account of another package that the server received. -/
structure Counted (l : UdpLink) : Prop where
  client : l.client.conn.mode = .client
  empty : l.client.leftover = []
  acks : ∀ a ∈ l.acks, a.1 ∈ l.received ∧ ∃ pkg env, a.2 = (udpAckPackage pkg env).bytes
  credited : ∀ k ∈ l.credited, k ∈ l.received
  nodup : l.credited.Nodup
  removed : l.removed = l.credited.length

variable {l l' : UdpLink}

theorem Counted.notOvercounted (h : l.Counted) : l.NotOvercounted := by
  have hsub : l.credited ⊆ l.received.dedup := fun k hk =>
    List.mem_dedup.mpr (h.credited k hk)
  rw [NotOvercounted, h.removed]
  exact (List.subperm_of_subset h.nodup hsub).length_le

/-- An ack takes out at most one package, and then one with its timestamp. -/
theorem processPackage_removes (qos : NwcQosProtocol) (pkg : NwcQosHdr) (recvTs : UInt32) :
    let queue := (nwcQosProcessPackage roundDouble qos pkg recvTs).sentQueue
    qos.sentQueue.length - queue.length = 0 ∨
      (qos.sentQueue.length - queue.length = 1 ∧
        ∃ e ∈ qos.sentQueue, e.message.hdr.timestamp = pkg.ackTimestamp) := by
  unfold nwcQosProcessPackage nwcQosGetPkgEntry
  split
  · exact Or.inl (Nat.sub_self _)
  · split
    · exact Or.inl (Nat.sub_self _)
    · next e hfind =>
      have hmem := List.mem_of_find?_eq_some hfind
      have hts := List.find?_some hfind
      refine Or.inr ⟨?_, e, hmem, by simpa using hts⟩
      have hpos : 0 < qos.sentQueue.length := List.length_pos_of_mem hmem
      dsimp only
      rw [List.length_eraseP_of_mem hmem hts]
      omega

/-! ## What an event does -/

/-- After the server has received package `k`, which is `r`. -/
def afterPackage (l : UdpLink) (k : Nat) (r : SendRecord) (env : AcceptEnv) : UdpLink :=
  let out := nwcConnectionUdpAccept l.server (.done r.buffer) l.source env
  { l with
    server := out.1
    received := l.received ++ [k]
    acks := l.acks ++ sentAck k out.2 }

/-- The ways a step goes. -/
theorem step_cases {e : Event} (h : l.step e = some l') :
    (∃ ce c, e = .client ce ∧ Quiet ce ∧ l.client.step ce = some c ∧
      l' = { l with client := c }) ∨
    (∃ k env r, e = .package k env ∧ l.client.sends[k]? = some r ∧ l' = l.afterPackage k r env) ∨
    (∃ j recvTs k bytes c, e = .ack j recvTs ∧ l.acks[j]? = some (k, bytes) ∧
      l.client.step (.input (.done bytes) recvTs) = some c ∧ l' = l.afterAck k c) := by
  cases e with
  | client ce =>
    simp only [UdpLink.step] at h
    split at h
    · next hq =>
      obtain ⟨c, hc, rfl⟩ := Option.map_eq_some_iff.mp h
      exact Or.inl ⟨ce, c, rfl, hq, hc, rfl⟩
    · cases h
  | package k env =>
    simp only [UdpLink.step] at h
    split at h
    · next r hk _ =>
      split at h
      · cases h
        exact Or.inr (Or.inl ⟨k, env, r, rfl, hk, rfl⟩)
      · cases h
    · cases h
  | ack j recvTs =>
    simp only [UdpLink.step] at h
    split at h
    · next k bytes hj =>
      obtain ⟨c, hc, rfl⟩ := Option.map_eq_some_iff.mp h
      exact Or.inr (Or.inr ⟨j, recvTs, k, bytes, c, rfl, hj, hc, rfl⟩)
    · cases h

/-- A receive that brings no datagram at most closes the connection. -/
theorem input_quiet {c c' : UdpClient} {call : SysCall (List UInt8)} {recvTs : UInt32}
    (hq : Quiet (.input call recvTs)) (hm : c.conn.mode = .client)
    (h : c.step (.input call recvTs) = some c') : c'.conn = c.conn := by
  have hquiet : UdpClient.datagramOf call = [] := hq
  rcases UdpClient.step_cases h with ⟨_, _, hev, ⟨-, x, hx, rfl⟩ | ⟨-, rfl⟩⟩ | ⟨hne, -⟩
  · cases hev
    rcases UdpClient.onRecv_cases hm call recvTs with ⟨errno, -, hout | hout⟩ |
      ⟨d, hfin, -⟩ | ⟨d, _, _, _, hfin, -⟩
    · rw [hout] at hx
      cases hx
      rfl
    · rw [hout] at hx
      cases hx
      rfl
    · rw [UdpClient.datagramOf, hfin] at hquiet
      cases hquiet
    · rw [UdpClient.datagramOf, hfin] at hquiet
      cases hquiet
  · rfl
  · exact absurd rfl (hne _ _)

/-- What brings no datagram leaves the receive path alone. -/
theorem Quiet.same {c c' : UdpClient} {e : UdpClient.Event} (hq : Quiet e)
    (hm : c.conn.mode = .client) (h : c.step e = some c') :
    c'.conn.mode = .client ∧ c'.leftover = c.leftover := by
  rcases UdpClient.step_cases h with ⟨call, recvTs, rfl, -⟩ | ⟨-, -, hs⟩
  · rw [UdpClient.leftover, input_quiet hq hm h]
    exact ⟨hm, rfl⟩
  · exact ⟨hs.mode.trans hm, hs.leftover⟩

/-- What a package adds to the acks is an ack for it. -/
theorem afterPackage_acks {k : Nat} {r : SendRecord} {env : AcceptEnv} {a : Nat × List UInt8}
    (ha : a ∈ (l.afterPackage k r env).acks) : a ∈ l.acks ∨ ∃ out,
      (nwcConnectionUdpAccept l.server (.done r.buffer) l.source env).2 = some out ∧
        a = (k, out.buffer) := by
  rcases List.mem_append.mp ha with ha | ha
  · exact Or.inl ha
  · right
    rcases hout : (nwcConnectionUdpAccept l.server (.done r.buffer) l.source env).2 with - | out
    · rw [hout] at ha
      exact absurd ha List.not_mem_nil
    · rw [hout, sentAck] at ha
      split at ha
      · exact ⟨out, rfl, List.mem_singleton.mp ha⟩
      · exact absurd ha List.not_mem_nil

/-- A package reaches the server. -/
theorem Counted.package (h : l.Counted) {k : Nat} {r : SendRecord} {env : AcceptEnv} :
    (l.afterPackage k r env).Counted where
  client := h.client
  empty := h.empty
  acks := by
    intro a ha
    rcases afterPackage_acks ha with ha | ⟨out, hout, rfl⟩
    · exact ⟨List.mem_append_left _ (h.acks a ha).1, (h.acks a ha).2⟩
    · obtain ⟨pkg, hpkg⟩ := udpAccept_reply hout
      exact ⟨List.mem_append_right _ List.mem_cons_self, pkg, env, hpkg⟩
  credited := fun j hj => List.mem_append_left _ (h.credited j hj)
  nodup := h.nodup
  removed := h.removed

/-- An ack reaches the client. -/
theorem Counted.ack (h : l.Counted) {j : Nat} {recvTs : UInt32} {k : Nat} {bytes : List UInt8}
    (hj : l.acks[j]? = some (k, bytes)) (hgood : l.CountsOnce (.ack j recvTs)) {c : UdpClient}
    (hstep : l.client.step (.input (.done bytes) recvTs) = some c) : (l.afterAck k c).Counted := by
  obtain ⟨hk, pkg, env, hbytes⟩ := h.acks _ (List.mem_of_getElem? hj)
  dsimp only at hk hbytes
  have hfits : bytes.length ≤ RECV_BUFFER_LEN := by
    rw [hbytes, udpAckPackage_length]
    decide
  have hframe : qosFormat.IsFrame bytes := by
    rw [hbytes]
    exact udpAckPackage_isFrame pkg env
  obtain ⟨hm, hl, hqos, hsame⟩ := UdpClient.step_package h.client h.empty hframe hfits hstep
  -- at most one package goes, and then the ack is the first for its package that counts
  have hgone : l.client.conn.qos.sentQueue.length - c.conn.qos.sentQueue.length = 0 ∨
      (l.client.conn.qos.sentQueue.length - c.conn.qos.sentQueue.length = 1 ∧
        k ∉ l.credited) := by
    by_cases hrunning : l.client.fate = .running
    · rw [hqos hrunning]
      rcases processPackage_removes l.client.conn.qos (NwcQosHdr.ofBytes bytes) recvTs with
        hnone | ⟨hone, e, he, hts⟩
      · exact Or.inl hnone
      · refine Or.inr ⟨hone, ?_⟩
        rcases hgood hrunning (k, bytes) hj with hfirst | hnothing
        · exact hfirst
        · exact absurd hts (hnothing e he)
    · exact Or.inl (by rw [hsame hrunning, Nat.sub_self])
  unfold afterAck
  rcases hgone with hzero | ⟨hone, hfirst⟩
  · simp only [hzero, List.replicate_zero, List.append_nil, Nat.add_zero]
    exact ⟨hm, hl, h.acks, h.credited, h.nodup, h.removed⟩
  · simp only [hone, List.replicate_one]
    refine ⟨hm, hl, h.acks, ?_, ?_, ?_⟩
    · intro i hi
      rcases List.mem_append.mp hi with hi | hi
      · exact h.credited i hi
      · rw [List.mem_singleton.mp hi]
        exact hk
    · rw [List.nodup_append]
      refine ⟨h.nodup, List.nodup_singleton k, fun i hi i' hi' heq => ?_⟩
      rw [heq, List.mem_singleton.mp hi'] at hi
      exact hfirst hi
    · rw [List.length_append, h.removed, List.length_singleton]

theorem Counted.step (h : l.Counted) {e : Event} (hgood : l.CountsOnce e)
    (hstep : l.step e = some l') : l'.Counted := by
  rcases step_cases hstep with ⟨ce, c, rfl, hq, hc, rfl⟩ | ⟨k, env, r, rfl, -, rfl⟩ |
    ⟨j, recvTs, k, bytes, c, rfl, hj, hc, rfl⟩
  · obtain ⟨hm, hl⟩ := Quiet.same hq h.client hc
    exact ⟨hm, hl.trans h.empty, h.acks, h.credited, h.nodup, h.removed⟩
  · exact h.package
  · exact h.ack hj hgood hc

/-! ## Runs -/

theorem start_counted (bandwidth : Int) (recvBuff : RecvBuffer) (stale : UInt32) (fd add : Int)
    (eh : Nat) (server : UdpServer) (source : SockAddr) :
    (start (.start bandwidth recvBuff stale fd add eh) server source).Counted where
  client := rfl
  empty := by
    rw [← List.length_eq_zero_iff, UdpClient.leftover, NwcConnection.leftover_length]
    rfl
  acks := fun a ha => absurd ha List.not_mem_nil
  credited := fun k hk => absurd hk List.not_mem_nil
  nodup := List.nodup_nil
  removed := rfl

/--
**Acks over UDP are not over-counted while each package is counted once.**

Whatever the network loses, repeats and reorders: in a run in which no ack takes a package out
after another ack for the same package has done so, the client has at no time taken out more
packages than the server has received.
-/
theorem acks_not_overcounted (bandwidth : Int) (recvBuff : RecvBuffer) (stale : UInt32)
    (fd add : Int) (eh : Nat) (server : UdpServer) (source : SockAddr) (events : List Event)
    (hgood : Along step (start (.start bandwidth recvBuff stale fd add eh) server source) events
      CountsOnce) (l : UdpLink)
    (hvisit : Visits step (start (.start bandwidth recvBuff stale fd add eh) server source) events
      l) : l.NotOvercounted := by
  exact (visits_invariant (fun _ _ _ h hg hs => h.step hg hs)
    (start_counted bandwidth recvBuff stale fd add eh server source) hgood hvisit).notOvercounted

/-- A client that sends two packages a run, and a server that has seen nobody. -/
def sample : UdpLink :=
  start (.start 224000 RecvBuffer.zero 0 3 0 0)
    { io := (nwcUdpHandlerListen (nwcUdpHandlerInit true) 4 0 1).2, bandwidth := 0, connHdr := [] }
    { port := 40000, addr := 1 }

/-- Two packages with the timestamp 5. -/
def burst : Event :=
  .client (.tick (List.replicate 3 { now := 5, block := .zero _, call := .done 1316 }))

/-- The server gets package `k` and answers. -/
def answer (k : Nat) : Event :=
  .package k
    { recvBuff := RecvBuffer.zero, connBuff := RecvBuffer.zero, connBandwidth := 0, stale := 0
      now := 6, call := .done 20 }

/-- Both packages arrive, and both acks. -/
theorem bothAcks_counted : ∃ l,
    replay step sample [burst, answer 0, answer 1, .ack 0 7, .ack 1 7] = some l ∧
      l.NotOvercounted := by
  obtain ⟨l, hl⟩ := Option.isSome_iff_exists.mp
    (show (replay step sample [burst, answer 0, answer 1, .ack 0 7, .ack 1 7]).isSome by
      decide +kernel)
  have hgood : Along step sample [burst, answer 0, answer 1, .ack 0 7, .ack 1 7] CountsOnce := by
    decide +kernel
  exact ⟨l, hl, acks_not_overcounted 224000 RecvBuffer.zero 0 3 0 0 _ _ _ hgood l
    ⟨_, List.prefix_rfl, hl⟩⟩

/-- The second package is lost, and the ack of the first one comes twice. -/
theorem repeatedAck_overcounts : ∃ l,
    replay step sample [burst, answer 0, .ack 0 7, .ack 0 8] = some l ∧ ¬l.NotOvercounted := by
  obtain ⟨l, hl⟩ := Option.isSome_iff_exists.mp
    (show (replay step sample [burst, answer 0, .ack 0 7, .ack 0 8]).isSome by decide +kernel)
  have hview : (replay step sample [burst, answer 0, .ack 0 7, .ack 0 8]).map
      (fun l => (l.removed, l.received)) = some (2, [0]) := by decide +kernel
  rw [hl] at hview
  obtain ⟨hremoved, hreceived⟩ := Prod.mk.inj (Option.some.inj hview)
  refine ⟨l, hl, ?_⟩
  rw [NotOvercounted, hremoved, hreceived]
  decide

end UdpLink

end Nwchecker

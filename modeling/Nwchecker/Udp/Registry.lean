import Mathlib.Data.List.Perm.Subperm
import Nwchecker.ListHead
import Nwchecker.Lib.Machine
import Nwchecker.Udp.Replies

/-!
# The connections of the UDP server in memory

`nwc_connection_udp_accept` once more, with the pointers: `conn_hdr` is a ring of the `conn_entry`s
of the connections, a new connection is linked into it while its `cliaddr` is still zero, and the
address of the sender is copied in behind that.

Connections are numbered as `malloc` gives them. The UDP server never frees one, so a number is not
given out again.

`Nwchecker/Udp/Accept.lean` has the same function on the list of the connections. `view` reads that
list off the ring, and `udpAccept_view` says that the two agree.
-/

namespace Nwchecker

open Ring Machine

/-! ## Lists that are searched by a key -/

section Keyed

variable {α β : Type} [DecidableEq β] {key : α → β}

/-- Among members with different keys the search finds the one with that key. -/
theorem find?_of_mem {l : List α} {a : α} (hnd : (l.map key).Nodup) (ha : a ∈ l) :
    l.find? (fun b => key b == key a) = some a := by
  obtain ⟨pre, post, rfl⟩ := List.append_of_mem ha
  refine List.find?_eq_some_iff_append.mpr ⟨beq_self_eq_true _, pre, post, rfl, fun b hb => ?_⟩
  rw [List.map_append, List.map_cons] at hnd
  have hne : key b ≠ key a := fun heq =>
    List.disjoint_of_nodup_append hnd (List.mem_map_of_mem hb) (by simp [heq])
  simpa using hne

/-- What comes last is new, or it has been there before. -/
theorem eraseDups_concat (l : List β) (b : β) :
    (l ++ [b]).eraseDups = if b ∈ l then l.eraseDups else l.eraseDups ++ [b] := by
  rw [List.eraseDups_append]
  by_cases hb : b ∈ l
  · simp [hb, List.removeAll]
  · simp [hb, List.removeAll, List.eraseDups_cons]

theorem nodup_eraseDups (l : List β) : l.eraseDups.Nodup := by
  induction l using List.reverseRecOn with
  | nil => exact List.nodup_nil
  | append_singleton l b ih =>
    rw [eraseDups_concat]
    split
    · exact ih
    · next hb =>
      refine ih.append (List.nodup_singleton b) ?_
      simpa using hb

end Keyed

/-! ## Memory -/

/-- The `struct list_head`s of the UDP server. -/
inductive UdpNode where
  | connHdr
  /-- `conn_entry` of the connection `k` -/
  | connEntry (k : Nat)
  deriving DecidableEq, Repr

/-- The socket of the server, `cfg->bandwidth`, `conn_hdr` and the connections. -/
structure UdpMemory where
  io : NwcUdpHandler
  bandwidth : Int
  links : Links UdpNode
  /-- The contents of a connection. -/
  connAt : Nat → UdpPeer
  created : Nat

namespace UdpMemory

/-- `INIT_LIST_HEAD(&conn_hdr)` in `nwc_server_start`. Nothing else is initialised. -/
def start (io : NwcUdpHandler) (bandwidth : Int) (links : Links UdpNode) (connAt : Nat → UdpPeer) :
    UdpMemory where
  io := io
  bandwidth := bandwidth
  links := initListHead links .connHdr
  connAt := connAt
  created := 0

/-- The nodes that a traversal of `conn_hdr` may come to, and one more. -/
def fuel (m : UdpMemory) : Nat := m.created + 1

/-- The test of `get_nwc_connection`. -/
def isFrom (m : UdpMemory) (addr : SockAddr) : UdpNode → Bool
  | .connEntry k =>
    (m.connAt k).cliaddr.port == addr.port && (m.connAt k).cliaddr.addr == addr.addr
  | .connHdr => false

/-- `get_nwc_connection`; `NULL` is `some none`. -/
def getNwcConnection (m : UdpMemory) (addr : SockAddr) : Option (Option UdpNode) :=
  listForEach m.links .connHdr (m.isFrom addr) m.fuel (m.links.next .connHdr)

/-- `add_nwc_tail` -/
def addNwcTail (m : UdpMemory) (k : Nat) : UdpMemory :=
  { m with links := listAddTail m.links (.connEntry k) .connHdr }

def setConn (m : UdpMemory) (k : Nat) (conn : UdpPeer) : UdpMemory :=
  { m with connAt := Function.update m.connAt k conn }

/-- The branch for a sender that is not in the list. -/
def addConnection (m : UdpMemory) (source : SockAddr) (env : AcceptEnv) : UdpMemory :=
  let k := m.created
  let conn := nwcConnectionInit .server m.bandwidth env.connBuff env.connBandwidth
  -- `nwc_connection_init` clears `cliaddr`, and only `memcpy` behind the insertion fills it
  let m := { m with created := k + 1 }
  let m := m.setConn k { conn := conn, cliaddr := { port := 0, addr := 0 } }
  (m.addNwcTail k).setConn k { conn := conn, cliaddr := source }

/-- `nwc_connection_udp_accept`; `none` when `get_nwc_connection` does not return. -/
def udpAccept (m : UdpMemory) (call : SysCall (List UInt8)) (source : SockAddr) (env : AcceptEnv) :
    Option (UdpMemory × Option SendRecord) :=
  let r := nwcUdpHandlerRecvfrom RECV_BUFFER_LEN call
  if r.1 ≤ 0 then some (m, none)
  else
    let recvBuff := env.recvBuff.store 0 r.2
    let pkg := NwcQosHdr.ofBytes (recvBuff.window 0 qosHdrLen)
    let sent : SendRecord :=
      { buffer := (udpAckPackage pkg env).bytes, rc := nwcUdpHandlerSendto env.call }
    match m.getNwcConnection source with
    | some (some _) => some (m, some sent)
    | some none => some (m.addConnection source env, some sent)
    | none => none

theorem cliaddr_beq (a b : SockAddr) : (a.port == b.port && a.addr == b.addr) = (a == b) := by
  rw [Bool.eq_iff_iff]
  cases a
  cases b
  simp

/-! ## The two models agree -/

/-- The members of `conn_hdr` are the connections `ks`. -/
structure Members (m : UdpMemory) (ks : List Nat) : Prop where
  ring : IsRing m.links .connHdr (ks.map .connEntry)
  lt_created : ∀ k ∈ ks, k < m.created

/-- The server as a list. -/
def view (m : UdpMemory) (ks : List Nat) : UdpServer where
  io := m.io
  bandwidth := m.bandwidth
  connHdr := ks.map m.connAt

variable {m : UdpMemory} {ks : List Nat}

theorem start_members (io : NwcUdpHandler) (bandwidth : Int) (links : Links UdpNode)
    (connAt : Nat → UdpPeer) : (start io bandwidth links connAt).Members [] where
  ring := initListHead_isRing links .connHdr
  lt_created := by simp

theorem Members.nodup (h : m.Members ks) : ks.Nodup :=
  List.Nodup.of_map _ (List.nodup_cons.mp h.ring.nodup).2

theorem Members.length_lt (h : m.Members ks) : (ks.map UdpNode.connEntry).length < m.fuel := by
  have hsub : ks ⊆ List.range m.created := fun k hk => List.mem_range.mpr (h.lt_created k hk)
  have hle := (h.nodup.subperm hsub).length_le
  rw [List.length_range] at hle
  rw [List.length_map]
  unfold fuel
  omega

/-- The connection whose `cliaddr` it is. -/
theorem getNwcConnection_eq (h : m.Members ks) (addr : SockAddr) :
    m.getNwcConnection addr
      = some ((ks.find? fun k => (m.connAt k).cliaddr == addr).map .connEntry) := by
  have htest : (m.isFrom addr ∘ UdpNode.connEntry) = fun k => (m.connAt k).cliaddr == addr := by
    funext k
    exact cliaddr_beq _ _
  rw [getNwcConnection, listForEach_ring h.ring h.length_lt, List.find?_map, htest]

/-- A new connection becomes the last member. -/
theorem addConnection_members (h : m.Members ks) (source : SockAddr) (env : AcceptEnv) :
    (m.addConnection source env).Members (ks ++ [m.created]) where
  ring := by
    rw [List.map_append]
    refine listAddTail_isRing h.ring ?_
    simp only [List.mem_cons, reduceCtorEq, false_or, List.mem_map, UdpNode.connEntry.injEq,
      exists_eq_right]
    exact fun hm => Nat.lt_irrefl _ (h.lt_created _ hm)
  lt_created := by
    intro k hk
    show k < m.created + 1
    rcases List.mem_append.mp hk with hk | hk
    · exact Nat.lt_succ_of_lt (h.lt_created k hk)
    · rw [List.mem_singleton.mp hk]
      exact Nat.lt_succ_self _

theorem addConnection_connAt_of_lt {k : Nat} (hk : k < m.created) (source : SockAddr)
    (env : AcceptEnv) : (m.addConnection source env).connAt k = m.connAt k := by
  simp [addConnection, setConn, addNwcTail, Nat.ne_of_lt hk]

@[simp] theorem addConnection_connAt_new (source : SockAddr) (env : AcceptEnv) :
    (m.addConnection source env).connAt m.created
      = { conn := nwcConnectionInit .server m.bandwidth env.connBuff env.connBandwidth
          cliaddr := source } := by
  simp [addConnection, setConn]

/-- The others stay as they are. -/
theorem addConnection_view (h : m.Members ks) (source : SockAddr) (env : AcceptEnv) :
    (m.addConnection source env).view (ks ++ [m.created])
      = { m.view ks with
          connHdr :=
            (m.view ks).connHdr ++
              [{ conn := nwcConnectionInit .server m.bandwidth env.connBuff env.connBandwidth
                 cliaddr := source }] } := by
  have hold : ks.map (m.addConnection source env).connAt = ks.map m.connAt :=
    List.map_congr_left fun k hk => addConnection_connAt_of_lt (h.lt_created k hk) source env
  rw [view, List.map_append, hold, List.map_singleton, addConnection_connAt_new]
  rfl

/-- **`nwc_connection_udp_accept` returns, and does what it does on the list.** -/
theorem udpAccept_view (h : m.Members ks) (call : SysCall (List UInt8)) (source : SockAddr)
    (env : AcceptEnv) :
    ∃ m' ks' sent, m.udpAccept call source env = some (m', sent) ∧ m'.Members ks' ∧
      nwcConnectionUdpAccept (m.view ks) call source env = (m'.view ks', sent) := by
  have hlist : Nwchecker.getNwcConnection (m.view ks).connHdr source
      = (ks.find? fun k => (m.connAt k).cliaddr == source).map m.connAt := by
    simp only [Nwchecker.getNwcConnection, cliaddr_beq]
    exact List.find?_map
  unfold udpAccept nwcConnectionUdpAccept
  dsimp only
  split
  · exact ⟨m, ks, none, rfl, h, rfl⟩
  · rw [getNwcConnection_eq h, hlist]
    cases hf : ks.find? fun k => (m.connAt k).cliaddr == source with
    | some k => exact ⟨m, ks, _, rfl, h, rfl⟩
    | none =>
      refine ⟨_, _, _, rfl, addConnection_members h source env, ?_⟩
      rw [addConnection_view h source env]
      rfl

end UdpMemory

/-! ## Runs -/

/-- One call of `nwc_connection_udp_accept`: what `recvfrom` answers, with the sender. -/
structure AcceptCall where
  call : SysCall (List UInt8)
  source : SockAddr
  env : AcceptEnv

/-- `recvfrom` returned at least one byte. -/
def AcceptCall.Delivers (c : AcceptCall) : Prop :=
  match c.call.final with
  | .ok datagram => datagram ≠ []
  | .error _ => False

instance (c : AcceptCall) : Decidable c.Delivers :=
  match h : c.call.final with
  | .ok datagram => decidable_of_iff (datagram ≠ []) (by simp [AcceptCall.Delivers, h])
  | .error _ => isFalse (by simp [AcceptCall.Delivers, h])

/-- The senders of the datagrams with at least one byte, in order. -/
def sources (calls : List AcceptCall) : List SockAddr :=
  (calls.filter fun c => c.Delivers).map AcceptCall.source

@[simp] theorem sources_nil : sources [] = [] := rfl

theorem sources_concat (calls : List AcceptCall) (c : AcceptCall) :
    sources (calls ++ [c]) = if c.Delivers then sources calls ++ [c.source] else sources calls := by
  by_cases hc : c.Delivers
  · simp [sources, List.filter_append, hc]
  · simp [sources, List.filter_append, hc]

theorem recvfrom_delivers (c : AcceptCall) :
    (nwcUdpHandlerRecvfrom RECV_BUFFER_LEN c.call).1 ≤ 0 ↔ ¬c.Delivers := by
  unfold AcceptCall.Delivers
  rcases nwcUdpHandlerRecv_final RECV_BUFFER_LEN c.call with ⟨datagram, hfin, hrecv⟩ |
    ⟨errno, hfin, ⟨-, hrc⟩ | ⟨-, hrc⟩⟩
  · rw [hfin, show nwcUdpHandlerRecvfrom RECV_BUFFER_LEN c.call = _ from hrecv]
    cases datagram with
    | nil => simp
    | cons b bs =>
      have hpos : 0 < ((b :: bs).take RECV_BUFFER_LEN).length :=
        List.length_pos_iff.mpr (List.cons_ne_nil b _)
      dsimp only
      exact iff_of_false (by omega) (by simp)
  · rw [hfin, show (nwcUdpHandlerRecvfrom RECV_BUFFER_LEN c.call).1 = _ from hrc]
    simp [EAGAIN]
  · rw [hfin, show (nwcUdpHandlerRecvfrom RECV_BUFFER_LEN c.call).1 = _ from hrc]
    simp

namespace UdpMemory

/-- The server handles a call, if it ever returns from it. -/
def acceptStep (m : UdpMemory) (c : AcceptCall) : Option UdpMemory :=
  (m.udpAccept c.call c.source c.env).map Prod.fst

/-- `conn_hdr` has one connection for each of the senders `seen`, in the order they came in. -/
structure Registers (m : UdpMemory) (ks : List Nat) (seen : List SockAddr) : Prop where
  members : m.Members ks
  cliaddrs : ks.map (fun k => (m.connAt k).cliaddr) = seen.eraseDups

variable {m : UdpMemory} {ks : List Nat} {seen : List SockAddr}

theorem Registers.mem_iff (h : m.Registers ks seen) {addr : SockAddr} :
    addr ∈ seen ↔ ∃ k ∈ ks, (m.connAt k).cliaddr = addr := by
  rw [← List.mem_eraseDups, ← h.cliaddrs, List.mem_map]

/-- Who has been seen is found. -/
theorem Registers.finds (h : m.Registers ks seen) {addr : SockAddr} (haddr : addr ∈ seen) :
    ∃ k ∈ ks, (m.connAt k).cliaddr = addr ∧
      m.getNwcConnection addr = some (some (.connEntry k)) := by
  obtain ⟨k, hk, rfl⟩ := h.mem_iff.mp haddr
  have hnd : (ks.map fun k => (m.connAt k).cliaddr).Nodup := by
    rw [h.cliaddrs]
    exact nodup_eraseDups seen
  refine ⟨k, hk, rfl, ?_⟩
  rw [getNwcConnection_eq h.members, find?_of_mem hnd hk]
  rfl

/-- Nobody else is. -/
theorem Registers.misses (h : m.Registers ks seen) {addr : SockAddr} (haddr : addr ∉ seen) :
    m.getNwcConnection addr = some none := by
  have hnone : ks.find? (fun k => (m.connAt k).cliaddr == addr) = none := by
    rw [List.find?_eq_none]
    intro k hk heq
    exact haddr (h.mem_iff.mpr ⟨k, hk, beq_iff_eq.mp heq⟩)
  rw [getNwcConnection_eq h.members, hnone]
  rfl

/-- A call without a byte, or from a known sender, leaves everything as it is. -/
theorem Registers.unchanged (h : m.Registers ks seen) {c : AcceptCall}
    (hc : ¬c.Delivers ∨ c.source ∈ seen) : acceptStep m c = some m := by
  unfold acceptStep udpAccept
  dsimp only
  by_cases hd : c.Delivers
  · rw [if_neg (fun hle => (recvfrom_delivers c).mp hle hd)]
    obtain ⟨k, -, -, hget⟩ := h.finds (hc.resolve_left fun hn => hn hd)
    rw [hget]
    rfl
  · rw [if_pos ((recvfrom_delivers c).mpr hd)]
    rfl

/-- A datagram from a new sender adds a connection for it. -/
theorem Registers.adds (h : m.Registers ks seen) {c : AcceptCall} (hd : c.Delivers)
    (hnew : c.source ∉ seen) :
    ∃ m', acceptStep m c = some m' ∧ m'.Registers (ks ++ [m.created]) (seen ++ [c.source]) := by
  refine ⟨m.addConnection c.source c.env, ?_, addConnection_members h.members c.source c.env, ?_⟩
  · unfold acceptStep udpAccept
    dsimp only
    rw [if_neg (fun hle => (recvfrom_delivers c).mp hle hd), h.misses hnew]
    rfl
  · have hold : ks.map (fun k => ((m.addConnection c.source c.env).connAt k).cliaddr)
        = ks.map fun k => (m.connAt k).cliaddr :=
      List.map_congr_left fun k hk => by
        rw [addConnection_connAt_of_lt (h.members.lt_created k hk)]
    rw [eraseDups_concat, if_neg hnew, List.map_append, hold, h.cliaddrs]
    simp

theorem Registers.step (h : m.Registers ks seen) (c : AcceptCall) :
    ∃ m' ks', acceptStep m c = some m' ∧
      m'.Registers ks' (if c.Delivers then seen ++ [c.source] else seen) := by
  by_cases hd : c.Delivers
  · rw [if_pos hd]
    by_cases hnew : c.source ∈ seen
    · refine ⟨m, ks, h.unchanged (Or.inr hnew), h.members, ?_⟩
      rw [eraseDups_concat, if_pos hnew]
      exact h.cliaddrs
    · obtain ⟨m', hstep, h'⟩ := h.adds hd hnew
      exact ⟨m', _, hstep, h'⟩
  · rw [if_neg hd]
    exact ⟨m, ks, h.unchanged (Or.inl hd), h⟩

/-- The registry along a run. -/
theorem run_registers (io : NwcUdpHandler) (bandwidth : Int) (links : Links UdpNode)
    (connAt : Nat → UdpPeer) (calls : List AcceptCall) :
    ∃ m ks, replay acceptStep (start io bandwidth links connAt) calls = some m ∧
      m.Registers ks (sources calls) := by
  induction calls using List.reverseRecOn with
  | nil => exact ⟨_, [], rfl, start_members io bandwidth links connAt, rfl⟩
  | append_singleton calls c ih =>
    obtain ⟨m, ks, hrun, h⟩ := ih
    obtain ⟨m', ks', hstep, h'⟩ := h.step c
    rw [← sources_concat] at h'
    exact ⟨m', ks', replay_concat.mpr ⟨m, hrun, hstep⟩, h'⟩

/--
**One connection for each peer.**

After any sequence of datagrams and failed receives `conn_hdr` is a ring with one connection for
each sender of a datagram of at least one byte, in the order they came in. `get_nwc_connection`
finds it, and nothing for anybody else. What comes from them again, what fails and what is empty
leaves the server as it is.
-/
theorem udpRegistry_exact (io : NwcUdpHandler) (bandwidth : Int) (links : Links UdpNode)
    (connAt : Nat → UdpPeer) (calls : List AcceptCall) :
    ∃ (m : UdpMemory) (ks : List Nat),
      replay acceptStep (start io bandwidth links connAt) calls = some m ∧
      IsRing m.links .connHdr (ks.map .connEntry) ∧
      ks.map (fun k => (m.connAt k).cliaddr) = (sources calls).eraseDups ∧
      (∀ addr ∈ sources calls, ∃ k ∈ ks, (m.connAt k).cliaddr = addr ∧
        m.getNwcConnection addr = some (some (.connEntry k))) ∧
      (∀ addr, addr ∉ sources calls → m.getNwcConnection addr = some none) ∧
      ∀ c : AcceptCall, ¬c.Delivers ∨ c.source ∈ sources calls → acceptStep m c = some m := by
  obtain ⟨m, ks, hrun, h⟩ := run_registers io bandwidth links connAt calls
  exact ⟨m, ks, hrun, h.members.ring, h.cliaddrs, fun addr => h.finds, fun addr => h.misses,
    fun c => h.unchanged⟩

/-- An empty datagram. -/
def emptyDatagram : AcceptCall where
  call := .done []
  source := { port := 7, addr := 1 }
  env := AcceptEnv.sample RecvBuffer.zero

/-- A server whose memory was zero. -/
def sample : UdpMemory :=
  start (nwcUdpHandlerInit true) 0 { next := id, prev := id } fun _ =>
    { conn := nwcConnectionInit .server 0 RecvBuffer.zero 0, cliaddr := { port := 0, addr := 0 } }

/-- `recvfrom` returns 0, and the sender gets no connection. -/
theorem emptyDatagram_unregistered :
    ∃ m, replay acceptStep sample [emptyDatagram] = some m ∧
      m.getNwcConnection emptyDatagram.source = some none ∧
      ¬∃ ks, m.Registers ks [emptyDatagram.source] := by
  obtain ⟨m, ks, hrun, h⟩ := run_registers (nwcUdpHandlerInit true) 0 { next := id, prev := id }
    (fun _ => { conn := nwcConnectionInit .server 0 RecvBuffer.zero 0
                cliaddr := { port := 0, addr := 0 } }) [emptyDatagram]
  have hnone : sources [emptyDatagram] = [] := by decide
  have hmiss : m.getNwcConnection emptyDatagram.source = some none := h.misses (by simp [hnone])
  refine ⟨m, hrun, hmiss, ?_⟩
  rintro ⟨ks', h'⟩
  obtain ⟨k, -, -, hfound⟩ := h'.finds List.mem_cons_self
  rw [hmiss] at hfound
  cases hfound

end UdpMemory

end Nwchecker

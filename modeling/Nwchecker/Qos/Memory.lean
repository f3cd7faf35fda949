import Mathlib.Data.Finset.Basic
import Nwchecker.ListHead
import Nwchecker.Qos.Protocol

/-!
# The sent queue in memory

The functions of `nwc_qos_protocol.c` once more, with the pointers: `sent_queue` is a ring of
`package_entry` nodes, a package is an entry and a message that `malloc` gave, and the functions
walk the ring and free what they take out of it.

Packages are numbered as they are created; the number names the entry and the message, and is not
given out again. What has been allocated and not freed yet is a set.

`Nwchecker/Qos/Protocol.lean` has the same functions on the list of the entries. `view` reads that
list off the ring, and `createPackage_view`, `processPackage_view` and `stat_view` say that the
two agree: on a ring both functions return, and with the same result.
-/

namespace Nwchecker

open Ring Words

/-! ## Memory -/

/-- The `struct list_head`s of a protocol and its packages. -/
inductive PkgNode where
  | null
  | sentQueue
  /-- `package_entry` of the package `k` -/
  | entry (k : Nat)
  deriving DecidableEq, Repr

theorem entry_injective : Function.Injective PkgNode.entry := fun _ _ h => PkgNode.entry.inj h

/-- `struct nwc_qos_protocol` with its packages. -/
structure QosMemory where
  rtt : ℚ
  lossPackagesPerSecs : UInt32
  sentPackagesPerSecs : UInt32
  jitter : ℚ
  sentBytes : UInt32
  sendBandwidth : UInt32
  lastStatTs : UInt32
  statInterval : Int
  links : Links PkgNode
  /-- The contents of an entry, with the message it points at. -/
  entryAt : Nat → NwcPackageEntry
  created : Nat
  /-- The entries and the messages that are allocated. -/
  entries : Finset Nat
  messages : Finset Nat
  /-- The packages that have been freed, in order. -/
  freed : List Nat

namespace QosMemory

/-- `pkg_entry->message->timestamp` -/
def timestampAt (m : QosMemory) (k : Nat) : UInt32 := (m.entryAt k).message.hdr.timestamp

/-- `nwc_qos_init` -/
def init (sendBandwidth : UInt32) (links : Links PkgNode) : QosMemory where
  rtt := 0
  lossPackagesPerSecs := 0
  sentPackagesPerSecs := 0
  jitter := 0
  sentBytes := 0
  sendBandwidth := sendBandwidth
  lastStatTs := 0
  statInterval := 1000
  links := initListHead links .sentQueue
  entryAt := fun _ =>
    { message :=
        { hdr := { timestamp := 0, ackTimestamp := 0, recvDelay := 0, length := 0 }, data := [] }
      flag := 0 }
  created := 0
  entries := ∅
  messages := ∅
  freed := []

/-- `free(entry->message); free(entry);` -/
def free (m : QosMemory) (k : Nat) : QosMemory :=
  { m with
    entries := m.entries.erase k
    messages := m.messages.erase k
    freed := m.freed ++ [k] }

/-! ## The functions -/

/-- `nwc_qos_create_package`, and the number of the package it returns. -/
def createPackage (m : QosMemory) (pkglen : UInt32) (block : Block (qosHdrLen + pkglen.toNat)) :
    QosMemory × Nat :=
  let pkg : NwcPackage :=
    { hdr :=
        { timestamp := (NwcQosHdr.ofBytes block.bytes).timestamp
          ackTimestamp := 0
          recvDelay := 0
          length := pkglen }
      data := pingData ++ block.bytes.drop (qosHdrLen + pingData.length) }
  ({ m with
      entryAt := Function.update m.entryAt m.created { message := pkg, flag := 0 }
      created := m.created + 1
      entries := insert m.created m.entries
      messages := insert m.created m.messages
      links := listAddTail m.links (.entry m.created) .sentQueue
      sentPackagesPerSecs := m.sentPackagesPerSecs + 1
      sentBytes := m.sentBytes + (UInt32.ofNat qosHdrLen + pkglen) }, m.created)

/-- `pkg->timestamp = now` -/
def stamp (m : QosMemory) (k : Nat) (now : UInt32) : QosMemory :=
  let e := m.entryAt k
  { m with
    entryAt :=
      Function.update m.entryAt k
        { e with message := { e.message with hdr := { e.message.hdr with timestamp := now } } } }

/-- The nodes that a traversal of the queue may come to, and one more. -/
def fuel (m : QosMemory) : Nat := m.created + 1

/-- The test of `nwc_qos_get_pkg_entry`. -/
def isAcked (m : QosMemory) (ackTs : UInt32) : PkgNode → Bool
  | .entry k => m.timestampAt k == ackTs
  | _ => false

/-- `nwc_qos_get_pkg_entry` -/
def getPkgEntry (m : QosMemory) (ackTs : UInt32) : Option (Option PkgNode) :=
  listForEach m.links .sentQueue (m.isAcked ackTs) m.fuel (m.links.next .sentQueue)

/-- `nwc_qos_process_package`, and the package that it takes out of the queue. -/
def processPackage (m : QosMemory) (round : ℚ → ℚ) (pkg : NwcQosHdr) (recvTs : UInt32) :
    Option (QosMemory × Option Nat) :=
  if pkg.ackTimestamp = 0 then some (m, none)
  else
    match m.getPkgEntry pkg.ackTimestamp with
    | some (some (.entry k)) =>
      let sample := rttSample round pkg recvTs
      let rtt := smoothed round m.rtt sample
      some
        ({ m with
            rtt := rtt
            jitter := smoothed round m.jitter (round (sample - rtt))
            links := listDel m.links .null (.entry k) }.free k, some k)
    | some _ => some (m, none)
    | none => none

/-- `(nowms - pkg_entry->message->timestamp) > qos->rtt` -/
def overdue (m : QosMemory) (nowms : UInt32) (k : Nat) : Bool :=
  decide (m.rtt < ((nowms - m.timestampAt k).toNat : ℚ))

/-- The body of the loop of `nwc_qos_stat`. The list collects what is counted. -/
def statPass (nowms : UInt32) (pos : PkgNode) (s : QosMemory × List Nat) : QosMemory × List Nat :=
  match pos with
  | .entry k =>
    if s.1.overdue nowms k then
      ({ s.1 with
          lossPackagesPerSecs := s.1.lossPackagesPerSecs + 1
          links := listDel s.1.links .null pos }, s.2 ++ [k])
    else s
  | _ => s

/-- The loop of `nwc_qos_stat`. -/
def statLoop (m : QosMemory) (nowms : UInt32) : Option (QosMemory × List Nat) :=
  listForEachSafe (fun s => s.1.links) .sentQueue (statPass nowms) m.fuel
    (m.links.next .sentQueue) (m.links.next (m.links.next .sentQueue)) (m, [])

/-- What follows the loop: the report, once an interval. -/
def statReport (m : QosMemory) (nowms : UInt32) : QosMemory × Option NwcQosReport :=
  if m.statInterval ≤ i32 (nowms - m.lastStatTs).toNat then
    let secs := m.statInterval.tdiv 1000
    ({ m with
        sentBytes := 0
        lossPackagesPerSecs := 0
        sentPackagesPerSecs := 0
        lastStatTs := nowms },
      some
        { bandwidth := m.sentBytes * 8 / UInt32.ofNat (u32 secs)
          rtt := m.rtt
          jitter := m.jitter
          lost := m.lossPackagesPerSecs
          sent := m.sentPackagesPerSecs
          secs := secs })
  else (m, none)

/-- `nwc_qos_stat`, with the packages that it counts as lost and the report if there is one. -/
def stat (m : QosMemory) (nowms : UInt32) :
    Option (QosMemory × List Nat × Option NwcQosReport) :=
  if m.lastStatTs = 0 then some ({ m with lastStatTs := nowms }, [], none)
  else
    match m.statLoop nowms with
    | some (m, lost) => some ((m.statReport nowms).1, lost, (m.statReport nowms).2)
    | none => none

/-! ## Reading the queue -/

/-- The queue holds the packages `q`, in this order. -/
def Queue (m : QosMemory) (q : List Nat) : Prop := IsRing m.links .sentQueue (q.map .entry)

/-- The protocol as `Nwchecker/Qos/Protocol.lean` sees it. -/
def view (m : QosMemory) (q : List Nat) : NwcQosProtocol where
  rtt := m.rtt
  lossPackagesPerSecs := m.lossPackagesPerSecs
  sentPackagesPerSecs := m.sentPackagesPerSecs
  jitter := m.jitter
  sentBytes := m.sentBytes
  sendBandwidth := m.sendBandwidth
  lastStatTs := m.lastStatTs
  statInterval := m.statInterval
  sentQueue := q.map m.entryAt

variable {m : QosMemory} {q : List Nat}

theorem Queue.unique {q' : List Nat} (h : m.Queue q) (h' : m.Queue q') : q = q' :=
  List.map_injective_iff.mpr entry_injective (IsRing.unique h h')

theorem Queue.nodup (h : m.Queue q) : q.Nodup :=
  ((List.nodup_cons.mp (IsRing.nodup h)).2).of_map _

theorem init_queue (sendBandwidth : UInt32) (links : Links PkgNode) :
    (init sendBandwidth links).Queue [] := initListHead_isRing links .sentQueue

/-- The queue fits into the fuel, since its packages have all been created. -/
theorem Queue.length_lt (h : m.Queue q) (hq : ∀ k ∈ q, k < m.created) : q.length < m.fuel := by
  have hsub : q ⊆ List.range m.created := fun k hk => List.mem_range.mpr (hq k hk)
  have hle := (h.nodup.subperm hsub).length_le
  rw [List.length_range] at hle
  unfold fuel
  omega

/-! ## The two models agree -/

theorem createPackage_queue (h : m.Queue q) (hq : ∀ k ∈ q, k < m.created) (pkglen : UInt32)
    (block : Block (qosHdrLen + pkglen.toNat)) :
    (m.createPackage pkglen block).1.Queue (q ++ [m.created]) := by
  unfold Queue
  rw [List.map_append]
  refine listAddTail_isRing h ?_
  simp only [List.mem_cons, reduceCtorEq, false_or, List.mem_map, PkgNode.entry.injEq,
    exists_eq_right]
  exact fun hm => Nat.lt_irrefl _ (hq _ hm)

/-- `nwc_qos_create_package` and the timestamp that its caller sets. -/
theorem createPackage_view (hq : ∀ k ∈ q, k < m.created) (pkglen now : UInt32)
    (block : Block (qosHdrLen + pkglen.toNat)) :
    (nwcQosCreatePackage (m.view q) pkglen block).1.stampLast now
      = ((m.createPackage pkglen block).1.stamp m.created now).view (q ++ [m.created]) := by
  simp only [nwcQosCreatePackage, NwcQosProtocol.stampLast, view, createPackage, stamp,
    List.getLast?_append_cons, List.getLast?_singleton, List.dropLast_concat, List.map_append,
    List.map_cons, List.map_nil, Function.update_self, Function.update_idem]
  congr 2
  refine List.map_congr_left fun k hk => ?_
  rw [Function.update_of_ne (Nat.ne_of_lt (hq k hk))]

/-- The oldest package with that timestamp. -/
theorem getPkgEntry_eq (h : m.Queue q) (hq : ∀ k ∈ q, k < m.created) (ackTs : UInt32) :
    m.getPkgEntry ackTs
      = some ((q.find? fun k => m.timestampAt k == ackTs).map .entry) := by
  have hfuel : (q.map PkgNode.entry).length < m.fuel := by
    rw [List.length_map]
    exact h.length_lt hq
  rw [getPkgEntry, listForEach_ring h hfuel, List.find?_map]
  rfl

/--
What `nwc_qos_process_package` does: nothing, when it is no ack or nothing waits for it; otherwise
the oldest package with that timestamp leaves the queue and is freed.
-/
theorem processPackage_cases (h : m.Queue q) (hq : ∀ k ∈ q, k < m.created) (round : ℚ → ℚ)
    (pkg : NwcQosHdr) (recvTs : UInt32) :
    (m.processPackage round pkg recvTs = some (m, none) ∧
        (pkg.ackTimestamp = 0 ∨ ∀ k ∈ q, m.timestampAt k ≠ pkg.ackTimestamp)) ∨
      ∃ pre k post rtt jitter, q = pre ++ k :: post ∧ pkg.ackTimestamp ≠ 0 ∧
        m.timestampAt k = pkg.ackTimestamp ∧ (∀ j ∈ pre, m.timestampAt j ≠ pkg.ackTimestamp) ∧
        m.processPackage round pkg recvTs
          = some ({ m with
              rtt := rtt
              jitter := jitter
              links := listDel m.links .null (.entry k) }.free k, some k) := by
  unfold processPackage
  by_cases h0 : pkg.ackTimestamp = 0
  · rw [if_pos h0]
    exact Or.inl ⟨rfl, Or.inl h0⟩
  · rw [if_neg h0, getPkgEntry_eq h hq]
    cases hf : q.find? fun k => m.timestampAt k == pkg.ackTimestamp with
    | none =>
      refine Or.inl ⟨rfl, Or.inr fun k hk heq => ?_⟩
      simpa [heq] using List.find?_eq_none.mp hf k hk
    | some k =>
      obtain ⟨hk, pre, post, rfl, hpre⟩ := List.find?_eq_some_iff_append.mp hf
      exact Or.inr ⟨pre, k, post, _, _, rfl, h0, by simpa using hk, fun j hj => by
        simpa using hpre j hj, rfl⟩

/-- A package taken out of the queue. -/
theorem Queue.del {pre post : List Nat} {k : Nat} (h : m.Queue (pre ++ k :: post)) :
    IsRing (listDel m.links .null (.entry k)) .sentQueue ((pre ++ post).map .entry) := by
  unfold Queue at h
  rw [List.map_append, List.map_cons] at h
  rw [List.map_append]
  exact listDel_isRing .null h

theorem processPackage_view (h : m.Queue q) (hq : ∀ k ∈ q, k < m.created) (round : ℚ → ℚ)
    (pkg : NwcQosHdr) (recvTs : UInt32) :
    ∃ m' q' gone, m.processPackage round pkg recvTs = some (m', gone) ∧ m'.Queue q' ∧
      nwcQosProcessPackage round (m.view q) pkg recvTs = m'.view q' := by
  have hget : nwcQosGetPkgEntry (m.view q).sentQueue pkg.ackTimestamp
      = (q.find? fun k => m.timestampAt k == pkg.ackTimestamp).map m.entryAt := by
    show (q.map m.entryAt).find? _ = _
    rw [List.find?_map]
    rfl
  unfold nwcQosProcessPackage processPackage
  by_cases h0 : pkg.ackTimestamp = 0
  · rw [if_pos h0, if_pos h0]
    exact ⟨m, q, none, rfl, h, rfl⟩
  · rw [if_neg h0, if_neg h0, hget, getPkgEntry_eq h hq]
    cases hf : q.find? fun k => m.timestampAt k == pkg.ackTimestamp with
    | none => exact ⟨m, q, none, rfl, h, rfl⟩
    | some k =>
      obtain ⟨hk, pre, post, rfl, hpre⟩ := List.find?_eq_some_iff_append.mp hf
      refine ⟨_, pre ++ post, some k, rfl, h.del, ?_⟩
      have herase : ((pre ++ k :: post).map m.entryAt).eraseP
          (fun e => e.message.hdr.timestamp == pkg.ackTimestamp) = (pre ++ post).map m.entryAt := by
        rw [List.map_append, List.map_cons, List.eraseP_append_right, List.eraseP_cons_of_pos,
          List.map_append]
        · exact hk
        · intro e he
          obtain ⟨j, hj, rfl⟩ := List.mem_map.mp he
          simpa [timestampAt] using hpre j hj
      simp only [Option.map_some, view, free]
      rw [herase]

/-! ### The statistics -/

/-- The packages of `q` that the statistics count as lost at `nowms`. -/
def lostAt (m : QosMemory) (nowms : UInt32) (q : List Nat) : List Nat :=
  if m.lastStatTs = 0 then [] else q.filter (m.overdue nowms)

/-- The packages of `q` that stay. -/
def keptAt (m : QosMemory) (nowms : UInt32) (q : List Nat) : List Nat :=
  if m.lastStatTs = 0 then q else q.filter fun k => !m.overdue nowms k

/--
In the loop of `nwc_qos_stat`: of the packages `done` the overdue ones are counted and gone, and
`todo` has not been looked at.
-/
def Scanned (m : QosMemory) (nowms : UInt32) (done todo : List Nat) (s : QosMemory × List Nat) :
    Prop :=
  ∃ links, s = ({ m with
      lossPackagesPerSecs :=
        m.lossPackagesPerSecs + UInt32.ofNat (done.filter (m.overdue nowms)).length
      links := links }, done.filter (m.overdue nowms)) ∧
    IsRing links .sentQueue (((done.filter fun k => !m.overdue nowms k) ++ todo).map .entry)

theorem Scanned.next {nowms : UInt32} {done todo : List Nat} {k : Nat} {s : QosMemory × List Nat}
    (h : Scanned m nowms done (k :: todo) s) :
    s.1.links.next (.entry k) = (todo.map PkgNode.entry).headD .sentQueue := by
  obtain ⟨links, rfl, hring⟩ := h
  rw [List.map_append, List.map_cons] at hring
  exact hring.next_member

theorem Scanned.pass {nowms : UInt32} {done todo : List Nat} {k : Nat} {s : QosMemory × List Nat}
    (h : Scanned m nowms done (k :: todo) s) :
    Scanned m nowms (done ++ [k]) todo (statPass nowms (.entry k) s) := by
  obtain ⟨links, rfl, hring⟩ := h
  show Scanned m nowms _ _ (if m.overdue nowms k then _ else _)
  cases hk : m.overdue nowms k with
  | true =>
    rw [if_pos rfl]
    refine ⟨listDel links .null (.entry k), ?_, ?_⟩
    · simp [List.filter_append, hk, UInt32.ofNat_add, UInt32.add_assoc]
    · rw [List.map_append, List.map_cons] at hring
      simpa [List.filter_append, hk] using listDel_isRing .null hring
  | false =>
    rw [if_neg Bool.false_ne_true]
    refine ⟨links, ?_, ?_⟩
    · simp [List.filter_append, hk]
    · simpa [List.filter_append, hk] using hring

/-- The loop counts the overdue packages and takes them out of the queue. It frees none. -/
theorem statLoop_eq (h : m.Queue q) (hq : ∀ k ∈ q, k < m.created) (nowms : UInt32) :
    ∃ links, m.statLoop nowms
        = some ({ m with
            lossPackagesPerSecs :=
              m.lossPackagesPerSecs + UInt32.ofNat (q.filter (m.overdue nowms)).length
            links := links }, q.filter (m.overdue nowms)) ∧
      IsRing links .sentQueue ((q.filter fun k => !m.overdue nowms k).map .entry) := by
  have hrule := listForEachSafe_rule (fun s : QosMemory × List Nat => s.1.links) .sentQueue
    (statPass nowms) (fun nodes s => ∃ done todo, q = done ++ todo ∧ nodes = todo.map .entry ∧
      Scanned m nowms done todo s)
    (by
      rintro x nodes s ⟨done, todo, -, hnodes, -⟩
      cases todo with
      | nil => cases hnodes
      | cons k todo =>
        rw [(List.cons.inj hnodes).1]
        exact fun h => by cases h)
    (by
      rintro x nodes s ⟨done, todo, -, hnodes, hscan⟩
      cases todo with
      | nil => cases hnodes
      | cons k todo =>
        obtain ⟨rfl, rfl⟩ := List.cons.inj hnodes
        exact hscan.next)
    (by
      rintro x nodes s ⟨done, todo, hsplit, hnodes, hscan⟩
      cases todo with
      | nil => cases hnodes
      | cons k todo =>
        obtain ⟨rfl, rfl⟩ := List.cons.inj hnodes
        exact ⟨done ++ [k], todo, by rw [hsplit, List.append_assoc]; rfl, rfl, hscan.pass⟩)
    (q.map .entry) m.fuel (m, []) ⟨[], q, rfl, rfl, m.links, by simp, h⟩
    (by
      rw [List.length_map]
      exact h.length_lt hq)
  obtain ⟨t, ht, done, todo, rfl, hnil, links, rfl, hring⟩ := hrule
  obtain rfl : todo = [] := List.map_eq_nil_iff.mp hnil.symm
  simp only [List.append_nil] at *
  refine ⟨links, ?_, hring⟩
  rw [statLoop, IsRing.next_head h]
  exact ht

/-- `(int)(nowms - qos->last_stat_ts) >= qos->stat_interval` -/
def ReportsAt (m : QosMemory) (nowms : UInt32) : Prop :=
  m.statInterval ≤ i32 (nowms - m.lastStatTs).toNat

instance (m : QosMemory) (nowms : UInt32) : Decidable (m.ReportsAt nowms) :=
  inferInstanceAs (Decidable (_ ≤ _))

/-- The line that a report at this moment prints, with `lost` packages counted. -/
def reportOf (m : QosMemory) (lost : UInt32) : NwcQosReport where
  bandwidth := m.sentBytes * 8 / UInt32.ofNat (u32 (m.statInterval.tdiv 1000))
  rtt := m.rtt
  jitter := m.jitter
  lost := lost
  sent := m.sentPackagesPerSecs
  secs := m.statInterval.tdiv 1000

/--
What `nwc_qos_stat` does: the first call takes the time; a later one takes the overdue packages out
of the queue, and reports and clears the counters when the interval is over.
-/
theorem stat_cases (h : m.Queue q) (hq : ∀ k ∈ q, k < m.created) (nowms : UInt32) :
    (m.lastStatTs = 0 ∧ m.stat nowms = some ({ m with lastStatTs := nowms }, [], none)) ∨
      m.lastStatTs ≠ 0 ∧ ∃ links loss, IsRing links .sentQueue ((m.keptAt nowms q).map .entry) ∧
        loss = m.lossPackagesPerSecs + UInt32.ofNat (m.lostAt nowms q).length ∧
        ((¬m.ReportsAt nowms ∧
            m.stat nowms
              = some ({ m with lossPackagesPerSecs := loss, links := links }, m.lostAt nowms q,
                  none)) ∨
          (m.ReportsAt nowms ∧
            m.stat nowms
              = some ({ m with
                  sentBytes := 0
                  lossPackagesPerSecs := 0
                  sentPackagesPerSecs := 0
                  lastStatTs := nowms
                  links := links }, m.lostAt nowms q, some (m.reportOf loss)))) := by
  unfold stat lostAt keptAt
  by_cases h0 : m.lastStatTs = 0
  · rw [if_pos h0]
    exact Or.inl ⟨h0, rfl⟩
  · rw [if_neg h0, if_neg h0, if_neg h0]
    obtain ⟨links, hloop, hring⟩ := statLoop_eq h hq nowms
    rw [hloop]
    refine Or.inr ⟨h0, links, _, hring, rfl, ?_⟩
    by_cases hrep : m.ReportsAt nowms
    · refine Or.inr ⟨hrep, ?_⟩
      unfold ReportsAt at hrep
      simp only [statReport, reportOf, if_pos hrep]
    · refine Or.inl ⟨hrep, ?_⟩
      unfold ReportsAt at hrep
      simp only [statReport, if_neg hrep]

/-- The packages and what is allocated are the same. -/
structure SameStore (m m' : QosMemory) : Prop where
  entryAt : m'.entryAt = m.entryAt
  created : m'.created = m.created
  entries : m'.entries = m.entries
  messages : m'.messages = m.messages
  freed : m'.freed = m.freed

/-- What `nwc_qos_stat` does to the packages: it frees none. -/
theorem stat_spec (h : m.Queue q) (hq : ∀ k ∈ q, k < m.created) (nowms : UInt32) :
    ∃ m' rep, m.stat nowms = some (m', m.lostAt nowms q, rep) ∧
      m'.Queue (m.keptAt nowms q) ∧ SameStore m m' := by
  rcases stat_cases h hq nowms with
    ⟨h0, heq⟩ | ⟨-, links, loss, hring, -, ⟨-, heq⟩ | ⟨-, heq⟩⟩
  · rw [heq, lostAt, keptAt, if_pos h0, if_pos h0]
    exact ⟨_, _, rfl, h, rfl, rfl, rfl, rfl, rfl⟩
  · exact ⟨_, _, heq, hring, rfl, rfl, rfl, rfl, rfl⟩
  · exact ⟨_, _, heq, hring, rfl, rfl, rfl, rfl, rfl⟩

theorem stat_view (h : m.Queue q) (hq : ∀ k ∈ q, k < m.created) (nowms : UInt32) :
    ∃ m' rep, m.stat nowms = some (m', m.lostAt nowms q, rep) ∧
      nwcQosStat (m.view q) nowms = (m'.view (m.keptAt nowms q), rep) := by
  unfold stat lostAt keptAt nwcQosStat
  by_cases h0 : m.lastStatTs = 0
  · have h0' : (m.view q).lastStatTs = 0 := h0
    rw [if_pos h0, if_pos h0, if_pos h0, if_pos h0']
    exact ⟨_, _, rfl, rfl⟩
  · have h0' : (m.view q).lastStatTs ≠ 0 := h0
    rw [if_neg h0, if_neg h0, if_neg h0, if_neg h0']
    obtain ⟨links, hloop, -⟩ := statLoop_eq h hq nowms
    have hcount : (m.view q).sentQueue.countP
        (fun e => decide ((m.view q).rtt < ((nowms - e.message.hdr.timestamp).toNat : ℚ)))
          = (q.filter (m.overdue nowms)).length := by
      show (q.map m.entryAt).countP _ = _
      rw [List.countP_map, List.countP_eq_length_filter]
      rfl
    have hqueue : (m.view q).sentQueue.filter
        (fun e => !decide ((m.view q).rtt < ((nowms - e.message.hdr.timestamp).toNat : ℚ)))
          = (q.filter fun k => !m.overdue nowms k).map m.entryAt := by
      show (q.map m.entryAt).filter _ = _
      rw [List.filter_map]
      rfl
    rw [hloop]
    refine ⟨_, _, rfl, ?_⟩
    simp only [hcount, hqueue, statReport]
    by_cases hrep : m.statInterval ≤ i32 (nowms - m.lastStatTs).toNat
    · have hrep' : (m.view q).statInterval ≤ i32 (nowms - (m.view q).lastStatTs).toNat := hrep
      rw [if_pos hrep, if_pos hrep']
      rfl
    · have hrep' : ¬(m.view q).statInterval ≤ i32 (nowms - (m.view q).lastStatTs).toNat := hrep
      rw [if_neg hrep, if_neg hrep']
      rfl

end QosMemory

end Nwchecker

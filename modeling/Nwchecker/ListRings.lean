import Nwchecker.Lib.RingFamily
import Nwchecker.Looper.Dispatch

/-!
# Lists as sequences

What a memory with several lists of `list.h` stands for: a sequence for each head. Along any run of
the operations the rings stay rings, and their members are those of the sequences.

* `ListOp` — what the program does to its lists
* `Represents.op` — one operation, on the links and on the sequences
* `forEachSafe_exact` — a traversal that deletes none but the node it is at
* `rings_refine` — whole runs
-/

namespace Nwchecker

open Ring

variable {ν : Type} [DecidableEq ν]

/-! ## Operations -/

inductive ListOp (ν : Type) where
  | add (new head : ν)
  | addTail (new head : ν)
  | del (entry : ν)
  /-- `list_del` and `list_add_tail`, as in `nwc_looper_cancel_worker` -/
  | move (entry head : ν)
  deriving DecidableEq, Repr

namespace ListOp

/-- What an operation does to the links. -/
def run (null : ν) (h : Links ν) : ListOp ν → Links ν
  | .add new head => listAdd h new head
  | .addTail new head => listAddTail h new head
  | .del entry => listDel h null entry
  | .move entry head => listAddTail (listDel h null entry) entry head

/-- What it does to the sequences. -/
def onSequences (rings : Sequences ν) : ListOp ν → Sequences ν
  | .add new head => rings.addFirst new head
  | .addTail new head => rings.addLast new head
  | .del entry => rings.remove entry
  | .move entry head => (rings.remove entry).addLast entry head

/-- A node that is added is in no list, and a node that is deleted is in one. -/
def Legal (null : ν) (rings : Sequences ν) : ListOp ν → Prop
  | .add new head | .addTail new head =>
    (rings head).isSome = true ∧ Unlinked rings new ∧ new ≠ null
  | .del entry => ∃ head xs, rings head = some xs ∧ entry ∈ xs
  | .move entry head =>
    (∃ head' xs, rings head' = some xs ∧ entry ∈ xs) ∧ (rings head).isSome = true

/-- The list of the head `k` is one that the operation is about. -/
def Touches (rings : Sequences ν) (k : ν) : ListOp ν → Prop
  | .add _ head | .addTail _ head => k = head
  | .del entry => ∃ xs, rings k = some xs ∧ entry ∈ xs
  | .move entry head => (∃ xs, rings k = some xs ∧ entry ∈ xs) ∨ k = head

end ListOp

/-- The links after a run of operations. -/
def runLinks (null : ν) (h : Links ν) (ops : List (ListOp ν)) : Links ν :=
  ops.foldl (ListOp.run null) h

/-- The sequences after it. -/
def runSequences (rings : Sequences ν) (ops : List (ListOp ν)) : Sequences ν :=
  ops.foldl ListOp.onSequences rings

/-- Every operation of the run is legal when its turn comes. -/
def LegalRun (null : ν) : Sequences ν → List (ListOp ν) → Prop
  | _, [] => True
  | rings, op :: ops => op.Legal null rings ∧ LegalRun null (op.onSequences rings) ops

/-- No operation of the run is about the list of `k`. -/
def Spares (k : ν) : Sequences ν → List (ListOp ν) → Prop
  | _, [] => True
  | rings, op :: ops => ¬op.Touches rings k ∧ Spares k (op.onSequences rings) ops

/-! ## One operation -/

variable {null : ν} {h h' : Links ν} {rings : Sequences ν} {head x new : ν} {xs zs : List ν}

/-- The links after an operation stand for the sequences after it, and the lists that it does not
touch are left alone. -/
structure OpRefines (null : ν) (h h' : Links ν) (rings rings' : Sequences ν)
    (Touched : ν → Prop) : Prop where
  represents : Represents h' rings'
  noNull : Unlinked rings' null
  others : ∀ k xs, rings k = some xs → ¬Touched k → rings' k = some xs ∧ Agree h h' (k :: xs)

/-- One list changes, and has a new member at most. -/
theorem change_refines (hrep : Represents h rings) (hnull : Unlinked rings null)
    (hhead : rings head = some xs) (hring : IsRing h' head zs)
    (hnodes : ∀ v ∈ zs, v ∈ xs ∨ Unlinked rings v ∧ v ≠ null)
    (hothers : ∀ k ys, rings k = some ys → k ≠ head → Agree h h' (k :: ys)) :
    OpRefines null h h' rings (Function.update rings head (some zs)) (· = head) where
  represents := by
    refine hrep.replace hhead hring (fun v hv => ?_) hothers
    rcases hnodes v hv with hold | ⟨hfree, -⟩
    · exact Or.inl (List.mem_cons_of_mem _ hold)
    · exact Or.inr hfree
  noNull := by
    refine hnull.replace hhead fun hmem => ?_
    rcases hnodes null hmem with hold | ⟨-, hne⟩
    · exact hnull head xs hhead (List.mem_cons_of_mem _ hold)
    · exact hne rfl
  others := fun k ys hk hkne => ⟨by rw [Function.update_of_ne hkne, hk], hothers k ys hk hkne⟩

theorem listAdd_refines (hrep : Represents h rings) (hnull : Unlinked rings null)
    (hhead : rings head = some xs) (hnew : Unlinked rings new) (hne : new ≠ null) :
    OpRefines null h (listAdd h new head) rings (rings.addFirst new head) (· = head) := by
  have hring := hrep.ring hhead
  rw [addFirst_eq hhead]
  refine change_refines hrep hnull hhead (listAdd_isRing hring (hnew head xs hhead)) ?_ ?_
  · intro v hv
    rcases List.mem_cons.mp hv with rfl | hv
    · exact Or.inr ⟨hnew, hne⟩
    · exact Or.inl hv
  · intro k ys hk hkne v hv
    refine listAdd_agree hring (hrep.disjoint hk hhead hkne v hv) ?_
    rintro rfl
    exact hnew k ys hk hv

theorem listAddTail_refines (hrep : Represents h rings) (hnull : Unlinked rings null)
    (hhead : rings head = some xs) (hnew : Unlinked rings new) (hne : new ≠ null) :
    OpRefines null h (listAddTail h new head) rings (rings.addLast new head) (· = head) := by
  have hring := hrep.ring hhead
  rw [addLast_eq hhead]
  refine change_refines hrep hnull hhead (listAddTail_isRing hring (hnew head xs hhead)) ?_ ?_
  · intro v hv
    rcases List.mem_append.mp hv with hv | hv
    · exact Or.inl hv
    · rw [List.mem_singleton.mp hv]
      exact Or.inr ⟨hnew, hne⟩
  · intro k ys hk hkne v hv
    refine listAddTail_agree hring (hrep.disjoint hk hhead hkne v hv) ?_
    rintro rfl
    exact hnew k ys hk hv

theorem listDel_refines (hrep : Represents h rings) (hnull : Unlinked rings null)
    (hhead : rings head = some xs) (hx : x ∈ xs) :
    OpRefines null h (listDel h null x) rings (rings.remove x) (· = head) := by
  obtain ⟨front, back, rfl⟩ := List.append_of_mem hx
  have hring := hrep.ring hhead
  rw [hrep.remove_eq hhead]
  refine change_refines hrep hnull hhead (listDel_isRing null hring) ?_ ?_
  · intro v hv
    exact Or.inl (by grind)
  · intro k ys hk hkne v hv
    exact listDel_agree null hring hx (hrep.disjoint hk hhead hkne v hv)

omit [DecidableEq ν] in
/-- Two operations one after the other. -/
theorem OpRefines.trans {h'' : Links ν} {rings' rings'' : Sequences ν} {T T' : ν → Prop}
    (h₁ : OpRefines null h h' rings rings' T) (h₂ : OpRefines null h' h'' rings' rings'' T') :
    OpRefines null h h'' rings rings'' fun k => T k ∨ T' k where
  represents := h₂.represents
  noNull := h₂.noNull
  others := by
    intro k ys hk hnot
    obtain ⟨hk', hagree⟩ := h₁.others k ys hk fun hT => hnot (Or.inl hT)
    obtain ⟨hk'', hagree'⟩ := h₂.others k ys hk' fun hT => hnot (Or.inr hT)
    exact ⟨hk'', hagree.trans hagree'⟩

omit [DecidableEq ν] in
/-- What is left alone may be less. -/
theorem OpRefines.mono {rings' : Sequences ν} {T T' : ν → Prop}
    (hop : OpRefines null h h' rings rings' T) (hsub : ∀ k ys, rings k = some ys → T k → T' k) :
    OpRefines null h h' rings rings' T' where
  represents := hop.represents
  noNull := hop.noNull
  others := fun k ys hk hnot => hop.others k ys hk fun hT => hnot (hsub k ys hk hT)

/-- **One operation.** -/
theorem ListOp.refines (hrep : Represents h rings) (hnull : Unlinked rings null) {op : ListOp ν}
    (hlegal : op.Legal null rings) :
    OpRefines null h (op.run null h) rings (op.onSequences rings) (op.Touches rings) := by
  cases op with
  | add new head =>
    obtain ⟨hsome, hnew, hne⟩ := hlegal
    obtain ⟨xs, hhead⟩ := Option.isSome_iff_exists.mp hsome
    exact listAdd_refines hrep hnull hhead hnew hne
  | addTail new head =>
    obtain ⟨hsome, hnew, hne⟩ := hlegal
    obtain ⟨xs, hhead⟩ := Option.isSome_iff_exists.mp hsome
    exact listAddTail_refines hrep hnull hhead hnew hne
  | del entry =>
    obtain ⟨head, xs, hhead, hx⟩ := hlegal
    refine (listDel_refines hrep hnull hhead hx).mono ?_
    rintro k ys - rfl
    exact ⟨xs, hhead, hx⟩
  | move entry head' =>
    obtain ⟨⟨head, xs, hhead, hx⟩, hsome⟩ := hlegal
    obtain ⟨ys, hhead'⟩ := Option.isSome_iff_exists.mp hsome
    have hdel := listDel_refines hrep hnull hhead hx
    have hne : entry ≠ null := by
      rintro rfl
      exact hnull head xs hhead (List.mem_cons_of_mem _ hx)
    -- the node is in no list between the two steps
    have hadd := listAddTail_refines hdel.represents hdel.noNull
      (Option.map_eq_some_iff.mpr ⟨ys, hhead', rfl⟩) (hrep.remove_unlinked hhead hx) hne
    refine (hdel.trans hadd).mono ?_
    rintro k zs - (rfl | rfl)
    · exact Or.inl ⟨xs, hhead, hx⟩
    · exact Or.inr rfl

/-! ## Runs -/

/-- **A run of operations.** -/
theorem run_refines (hrep : Represents h rings) (hnull : Unlinked rings null)
    {ops : List (ListOp ν)} (hlegal : LegalRun null rings ops) :
    OpRefines null h (runLinks null h ops) rings (runSequences rings ops)
      fun k => ¬Spares k rings ops := by
  induction ops generalizing h rings with
  | nil =>
    exact { represents := hrep, noNull := hnull, others := fun k ys hk _ => ⟨hk, Agree.refl⟩ }
  | cons op ops ih =>
    obtain ⟨hop, hrest⟩ := hlegal
    have hfirst := ListOp.refines hrep hnull hop
    have hthen := ih hfirst.represents hfirst.noNull hrest
    refine (hfirst.trans hthen).mono ?_
    rintro k ys - (htouch | hnot)
    · exact fun hspares => hspares.1 htouch
    · exact fun hspares => hnot hspares.2

/-! ## Traversals -/

/-- The state of a `list_for_each_safe` whose body does something of its own, too. -/
structure Traversal (ν σ : Type) where
  links : Links ν
  visited : List ν
  own : σ

variable {σ : Type}

/-- A body that deletes the node it is at, or leaves the lists alone. `decides` says which of the
two, and what else it does. -/
def visitBody (null : ν) (decides : ν → σ → Bool × σ) (pos : ν) (t : Traversal ν σ) :
    Traversal ν σ where
  links := if (decides pos t.own).1 then listDel t.links null pos else t.links
  visited := t.visited ++ [pos]
  own := (decides pos t.own).2

/-- The same on a sequence: what is kept of it, and what the body has done. -/
def visitSequence (decides : ν → σ → Bool × σ) : List ν → σ → List ν × σ
  | [], own => ([], own)
  | x :: xs, own =>
    let rest := visitSequence decides xs (decides x own).2
    (if (decides x own).1 then rest.1 else x :: rest.1, rest.2)

/-- `list_for_each_safe` on the list of `head`, begun in the state `own`. -/
def forEachSafe (null : ν) (decides : ν → σ → Bool × σ) (head : ν) (fuel : Nat) (h : Links ν)
    (own : σ) : Option (Traversal ν σ) :=
  listForEachSafe Traversal.links head (visitBody null decides) fuel (h.next head)
    (h.next (h.next head)) { links := h, visited := [], own := own }

/-- What a traversal of the list `xs` comes to. -/
structure VisitsAll (null : ν) (decides : ν → σ → Bool × σ) (h : Links ν) (rings : Sequences ν)
    (head : ν) (xs : List ν) (start : σ) (t : Traversal ν σ) : Prop where
  visited : t.visited = xs
  own : t.own = (visitSequence decides xs start).2
  refines : OpRefines null h t.links rings
    (Function.update rings head (some (visitSequence decides xs start).1)) (· = head)

/-- The traversal has `rest` before it, and `kept` is what it has left of the nodes behind it. -/
structure OnWay (null : ν) (decides : ν → σ → Bool × σ) (h : Links ν) (rings : Sequences ν)
    (head : ν) (xs : List ν) (start : σ) (kept rest : List ν) (t : Traversal ν σ) : Prop where
  visited : t.visited ++ rest = xs
  sequence : visitSequence decides xs start =
    (kept ++ (visitSequence decides rest t.own).1, (visitSequence decides rest t.own).2)
  refines : OpRefines null h t.links rings (Function.update rings head (some (kept ++ rest)))
    (· = head)

section

variable {decides : ν → σ → Bool × σ} {start : σ} {kept rest : List ν} {t : Traversal ν σ}

theorem OnWay.ring (hway : OnWay null decides h rings head xs start kept rest t) :
    IsRing t.links head (kept ++ rest) :=
  hway.refines.represents.ring (Function.update_self ..)

/-- The body takes away the node it is at, or goes on behind it. -/
theorem OnWay.visit (hway : OnWay null decides h rings head xs start kept (x :: rest) t) :
    ∃ kept', OnWay null decides h rings head xs start kept' rest (visitBody null decides x t) := by
  have hvisited : (t.visited ++ [x]) ++ rest = xs := by
    rw [List.append_assoc]
    exact hway.visited
  have hsequence := hway.sequence
  rw [visitSequence] at hsequence
  by_cases hdel : (decides x t.own).1 = true
  · refine ⟨kept, { visited := hvisited, sequence := ?_, refines := ?_ }⟩
    · rw [hsequence, if_pos hdel]
      rfl
    · have hself : (Function.update rings head (some (kept ++ x :: rest))) head
          = some (kept ++ x :: rest) := Function.update_self ..
      have hstep := listDel_refines hway.refines.represents hway.refines.noNull hself
        (List.mem_append_right _ List.mem_cons_self)
      rw [hway.refines.represents.remove_eq hself, Function.update_idem] at hstep
      simp only [visitBody, hdel, if_true]
      exact (hway.refines.trans hstep).mono fun k ys _ hor => hor.elim id id
  · refine ⟨kept ++ [x], { visited := hvisited, sequence := ?_, refines := ?_ }⟩
    · rw [hsequence, if_neg hdel, List.append_assoc]
      rfl
    · have hrefines := hway.refines
      simp only [visitBody, if_neg hdel]
      rw [List.append_assoc]
      exact hrefines

/-- **A traversal that deletes none but the node it is at** visits every member once, in order, and
ends. It does to the list what it does to the sequence. -/
theorem forEachSafe_exact (hrep : Represents h rings) (hnull : Unlinked rings null)
    (hhead : rings head = some xs) (decides : ν → σ → Bool × σ) (start : σ) {fuel : Nat}
    (hfuel : xs.length < fuel) :
    ∃ t, forEachSafe null decides head fuel h start = some t ∧
      VisitsAll null decides h rings head xs start t := by
  have hsame : Function.update rings head (some xs) = rings := by
    rw [← hhead, Function.update_eq_self]
  have hrule := listForEachSafe_rule Traversal.links head (visitBody null decides)
    (fun rest t => ∃ kept, OnWay null decides h rings head xs start kept rest t)
    (by
      rintro y rest t ⟨kept, hway⟩ rfl
      exact (List.nodup_cons.mp hway.ring.nodup).1 (by simp))
    (by
      rintro y rest t ⟨kept, hway⟩
      exact hway.ring.next_member)
    (by
      rintro y rest t ⟨kept, hway⟩
      exact hway.visit)
    xs fuel { links := h, visited := [], own := start }
    ⟨[], { visited := rfl, sequence := rfl, refines := by
            rw [List.nil_append, hsame]
            exact { represents := hrep, noNull := hnull
                    others := fun k ys hk _ => ⟨hk, Agree.refl⟩ } }⟩ hfuel
  obtain ⟨t, ht, kept, hway⟩ := hrule
  have hsequence := hway.sequence
  have hrefines := hway.refines
  rw [visitSequence, List.append_nil] at hsequence
  rw [List.append_nil] at hrefines
  refine ⟨t, ?_, { visited := ?_, own := ?_, refines := ?_ }⟩
  · rw [forEachSafe, (hrep.ring hhead).next_head]
    exact ht
  · rw [← hway.visited, List.append_nil]
  · rw [hsequence]
  · rw [hsequence]
    exact hrefines

end

/-! ## Whole runs -/

/-- **What the lists are after a run of operations.** -/
structure RunRefines (null : ν) (h : Links ν) (rings : Sequences ν) (ops : List (ListOp ν)) :
    Prop where
  /-- The rings are those of the sequences, and have no node in common. -/
  represents : Represents (runLinks null h ops) (runSequences rings ops)
  /-- `next` and `prev` undo each other. -/
  inverse : ∀ head xs, runSequences rings ops head = some xs → ∀ v ∈ head :: xs,
    (runLinks null h ops).next ((runLinks null h ops).prev v) = v ∧
      (runLinks null h ops).prev ((runLinks null h ops).next v) = v
  /-- All members are reached from the head, one way and the other. -/
  reached : ∀ head xs, runSequences rings ops head = some xs →
    List.iterate (runLinks null h ops).next ((runLinks null h ops).next head) xs.length = xs ∧
      List.iterate (runLinks null h ops).prev ((runLinks null h ops).prev head) xs.length
        = xs.reverse
  /-- Lists that no operation was about are what they were. -/
  others : ∀ k xs, rings k = some xs → Spares k rings ops →
    runSequences rings ops k = some xs ∧ Agree h (runLinks null h ops) (k :: xs)
  traversal : ∀ {σ : Type} (decides : ν → σ → Bool × σ) (start : σ) head xs,
    runSequences rings ops head = some xs → ∀ fuel, xs.length < fuel →
      ∃ t, forEachSafe null decides head fuel (runLinks null h ops) start = some t ∧
        VisitsAll null decides (runLinks null h ops) (runSequences rings ops) head xs start t

/-- **The lists refine sequences.** -/
theorem rings_refine (hrep : Represents h rings) (hnull : Unlinked rings null)
    {ops : List (ListOp ν)} (hlegal : LegalRun null rings ops) : RunRefines null h rings ops := by
  have hrun := run_refines hrep hnull hlegal
  constructor
  · exact hrun.represents
  · intro head xs hhead v hv
    exact (hrun.represents.ring hhead).next_prev hv
  · intro head xs hhead
    have hring := hrun.represents.ring hhead
    exact ⟨hring.forward, hring.backward⟩
  · intro k xs hk hspares
    exact hrun.others k xs hk fun hnot => hnot hspares
  · intro σ decides start head xs hhead fuel hfuel
    exact forEachSafe_exact hrun.represents hrun.noNull hhead decides start hfuel

/-! ## The two lists of a looper -/

/-- The workers of a looper, and the cancelled ones. -/
def workerRings (ws rs : List Nat) : Sequences WorkerNode
  | .workerHdr => some (ws.map .worker)
  | .removedWorkerHdr => some (rs.map .worker)
  | .null | .worker _ => none

variable {l l' : NwcLooper} {ws rs : List Nat}

theorem Registered.represents (hreg : Registered l ws rs) :
    Represents l.links (workerRings ws rs) where
  ring := by
    intro head xs hhead
    cases head with
    | workerHdr =>
      cases hhead
      exact hreg.workerRing
    | removedWorkerHdr =>
      cases hhead
      exact hreg.removedRing
    | null => cases hhead
    | worker i => cases hhead
  disjoint := by
    intro head head' xs ys hhead hhead' hne v hv hv'
    cases head with
    | workerHdr =>
      cases head' with
      | workerHdr => exact hne rfl
      | removedWorkerHdr =>
        cases hhead
        cases hhead'
        exact hreg.disjoint v hv' hv
      | null => cases hhead'
      | worker i => cases hhead'
    | removedWorkerHdr =>
      cases head' with
      | workerHdr =>
        cases hhead
        cases hhead'
        exact hreg.disjoint v hv hv'
      | removedWorkerHdr => exact hne rfl
      | null => cases hhead'
      | worker i => cases hhead'
    | null => cases hhead
    | worker i => cases hhead

theorem workerRings_noNull (ws rs : List Nat) : Unlinked (workerRings ws rs) .null := by
  intro head xs hhead
  cases head with
  | workerHdr =>
    cases hhead
    simp
  | removedWorkerHdr =>
    cases hhead
    simp
  | null => cases hhead
  | worker i => cases hhead

theorem workerRings_unlinked {i : Nat} (hws : i ∉ ws) (hrs : i ∉ rs) :
    Unlinked (workerRings ws rs) (.worker i) := by
  intro head xs hhead
  cases head with
  | workerHdr =>
    cases hhead
    simpa using hws
  | removedWorkerHdr =>
    cases hhead
    simpa using hrs
  | null => cases hhead
  | worker j => cases hhead

theorem workerRings_addLast (ws rs : List Nat) (i : Nat) :
    (workerRings ws rs).addLast (.worker i) .workerHdr = workerRings (ws ++ [i]) rs := by
  funext head
  cases head <;> simp [Sequences.addLast, workerRings]

/-- **A call of the looper** is a run of list operations, on the links and on the sequences. -/
theorem workerOp_refines {op : WorkerOp} (hreg : Registered l ws rs)
    (hop : workerOp l op = some l') :
    ∃ ops, LegalRun .null (workerRings ws rs) ops ∧ l'.links = runLinks .null l.links ops ∧
      ∃ ws' rs', Registered l' ws' rs' ∧
        workerRings ws' rs' = runSequences (workerRings ws rs) ops := by
  rcases workerOp_cases hop with ⟨rfl, -⟩ | ⟨i, ud, f, -, hfree, rfl⟩ | ⟨i, w, -, hw, hdo, rfl⟩
  · exact ⟨[], trivial, rfl, ws, rs, hreg, rfl⟩
  · have hws : i ∉ ws := by
      intro hi
      obtain ⟨w, hw, -⟩ := hreg.live i hi
      rw [hfree] at hw
      cases hw
    have hrs : i ∉ rs := by
      intro hi
      obtain ⟨w, hw, -⟩ := hreg.cancelled i hi
      rw [hfree] at hw
      cases hw
    refine ⟨[.addTail (.worker i) .workerHdr], ?_, rfl, ws ++ [i], rs, hreg.register hfree ud f, ?_⟩
    · exact ⟨⟨rfl, workerRings_unlinked hws hrs, by simp⟩, trivial⟩
    · exact (workerRings_addLast ws rs i).symm
  · obtain ⟨front, back, rfl⟩ := List.append_of_mem (hreg.mem_of_live hw hdo)
    have hhead : workerRings (front ++ i :: back) rs .workerHdr
        = some (front.map .worker ++ .worker i :: back.map .worker) := by
      simp [workerRings]
    refine ⟨[.move (.worker i) .removedWorkerHdr], ?_, rfl, front ++ back, rs ++ [i],
      hreg.cancel, ?_⟩
    · exact ⟨⟨⟨.workerHdr, _, hhead, by simp⟩, rfl⟩, trivial⟩
    · show _ = ((workerRings (front ++ i :: back) rs).remove (.worker i)).addLast (.worker i)
        .removedWorkerHdr
      rw [hreg.represents.remove_eq hhead]
      funext head
      cases head <;> simp [Sequences.addLast, workerRings]

/-- Two workers are added, one is cancelled and the other deleted. -/
theorem twoWorkers_refine : RunRefines .null (nwcLooperInit ⟨id, id⟩).links (workerRings [] [])
    [.addTail (.worker 0) .workerHdr, .add (.worker 1) .workerHdr,
      .move (.worker 0) .removedWorkerHdr, .del (.worker 1)] := by
  refine rings_refine (nwcLooperInit_registered _).represents (workerRings_noNull _ _) ?_
  have hfirst : (ListOp.addTail (.worker 0) .workerHdr).onSequences (workerRings [] [])
      = workerRings [0] [] := workerRings_addLast [] [] 0
  have hsecond : (ListOp.add (.worker 1) .workerHdr).onSequences (workerRings [0] [])
      = workerRings [1, 0] [] := by
    funext head
    cases head <;> simp [ListOp.onSequences, Sequences.addFirst, workerRings]
  refine ⟨⟨rfl, workerRings_unlinked (by simp) (by simp), by decide⟩, ?_⟩
  rw [hfirst]
  refine ⟨⟨rfl, workerRings_unlinked (by simp) (by simp), by decide⟩, ?_⟩
  rw [hsecond]
  exact ⟨⟨⟨.workerHdr, _, rfl, by decide⟩, rfl⟩, ⟨.workerHdr, _, rfl, by decide⟩, trivial⟩

end Nwchecker

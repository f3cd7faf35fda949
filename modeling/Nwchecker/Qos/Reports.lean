import Nwchecker.Qos.Ledger

/-!
# What a report says

Once an interval `nwc_qos_stat` divides the losses by the packages sent, prints the bandwidth, and
clears the counters. The packages sent are those created since the last report; the losses are
those found since the last report, whenever the package was created.

`reportsOk_iff` says which windows give a report that makes sense: a package was created in it, the
losses that belong to older packages have room beside the window's own packages, its bytes fit the
counter eight times, and it is shorter than two seconds, since the code divides by the interval and
not by the time that has passed.
-/

namespace Nwchecker

open Doubles Ring Words Machine

/-! ## Reports -/

/-- `loss_rate`: two quotients of doubles. -/
def NwcQosReport.lossRate (r : NwcQosReport) : ℚ :=
  roundDouble (roundDouble ((r.lost.toNat : ℚ) / r.sent.toNat) / r.secs)

/-- At most all of the packages are lost. -/
theorem NwcQosReport.lossRate_le_one {r : NwcQosReport} (hsecs : r.secs = 1)
    (h : r.lost ≤ r.sent) : 0 ≤ r.lossRate ∧ r.lossRate ≤ 1 := by
  have hle : (r.lost.toNat : ℚ) ≤ r.sent.toNat := Nat.cast_le.mpr h
  obtain ⟨hnonneg, hone⟩ := roundDouble_mem_unit
    (div_nonneg (Nat.cast_nonneg r.lost.toNat) (Nat.cast_nonneg r.sent.toNat))
    (div_le_one_of_le₀ hle (Nat.cast_nonneg _))
  rw [lossRate, hsecs, Int.cast_one, div_one]
  exact roundDouble_mem_unit hnonneg hone

/-- A report that is well defined and says what happened. -/
structure WindowReport.Ok (r : WindowReport) : Prop where
  divisor : 0 < r.report.sent
  loss : r.report.lost ≤ r.report.sent
  rate : 0 ≤ r.report.lossRate ∧ r.report.lossRate ≤ 1
  noWrap : 8 * r.bytes < 4294967296
  bandwidth : r.report.bandwidth.toNat = 8 * r.bytes / (r.elapsed / 1000)

namespace QosLedger

/-- How many packages were created since the last report. -/
def made (l : QosLedger) : Nat := l.mem.created - l.windowFirst

/-- The losses that a report at `now` is about, with the queue `q`. -/
def losses (l : QosLedger) (now : Nat) (q : List Nat) : List Nat :=
  l.lostNow ++ l.mem.lostAt (UInt32.ofNat now) q

/-- A window whose report at `now` is in order. -/
structure GoodWindow (l : QosLedger) (now : Nat) (q : List Nat) : Prop where
  /-- A package was created. -/
  busy : l.windowFirst < l.mem.created
  /-- The bits of its bytes fit 32 bits. -/
  small : 8 * l.windowBytes < 4294967296
  /-- The time that has passed is the interval, in whole seconds. -/
  short : now - l.windowStart < 2000
  /-- The losses of older packages are at most the window's packages that are not lost. -/
  carried : (l.losses now q).countP (fun k => decide (k < l.windowFirst)) ≤
    l.made - (l.losses now q).countP (fun k => decide (l.windowFirst ≤ k))

/-- The statistics report in good windows only. -/
def ReportsGood (l : QosLedger) : QosEvent → Prop
  | .stat advance => l.mem.lastStatTs ≠ 0 → l.mem.ReportsAt (UInt32.ofNat (l.clock + advance)) →
      ∀ q, l.mem.Queue q → l.GoodWindow (l.clock + advance) q
  | _ => True

/-! ## The counters of a window -/

/-- What the counters stand for. -/
structure Counted (l : QosLedger) : Prop where
  interval : l.mem.statInterval = 1000
  first : l.windowFirst ≤ l.mem.created
  sent : l.mem.sentPackagesPerSecs = UInt32.ofNat l.made
  bytes : l.mem.sentBytes = UInt32.ofNat l.windowBytes
  sizes : qosHdrLen * l.made ≤ l.windowBytes
  start : l.windowStart ≤ l.clock
  lastStatTs : l.mem.lastStatTs ≠ 0 → l.mem.lastStatTs = UInt32.ofNat l.windowStart

variable {round : ℚ → ℚ} {l l' : QosLedger} {q : List Nat}

theorem Counted.create (h : l.Counted) (pkglen : UInt32)
    (block : Block (qosHdrLen + pkglen.toNat)) (now : UInt32) :
    (l.create pkglen block now).Counted where
  interval := h.interval
  first := Nat.le_succ_of_le h.first
  sent := by
    have hmade : (l.create pkglen block now).made = l.made + 1 := Nat.succ_sub h.first
    show l.mem.sentPackagesPerSecs + 1 = _
    rw [hmade, h.sent, UInt32.ofNat_add]
    rfl
  bytes := by
    show l.mem.sentBytes + (UInt32.ofNat qosHdrLen + pkglen)
      = UInt32.ofNat (l.windowBytes + (qosHdrLen + pkglen.toNat))
    rw [h.bytes, UInt32.ofNat_add, UInt32.ofNat_add, UInt32.ofNat_toNat]
  sizes := by
    have hmade : (l.create pkglen block now).made = l.made + 1 := Nat.succ_sub h.first
    show qosHdrLen * _ ≤ l.windowBytes + (qosHdrLen + pkglen.toNat)
    have hsizes := h.sizes
    rw [hmade, Nat.mul_succ]
    omega
  start := h.start
  lastStatTs := h.lastStatTs

/-- An ack leaves the counters alone. -/
theorem Counted.process (h : l.Counted) (hbal : l.Balanced q) {pkg : NwcQosHdr} {recvTs : UInt32}
    (hstep : l.step round (.process pkg recvTs) = some l') :
    l'.Counted ∧ l'.reports = l.reports := by
  rcases QosMemory.processPackage_cases hbal.queue hbal.created round pkg recvTs with
    ⟨heq, -⟩ | ⟨pre, k, post, rtt, jitter, -, -, -, -, heq⟩
  · rw [step_process heq] at hstep
    cases hstep
    exact ⟨⟨h.interval, h.first, h.sent, h.bytes, h.sizes, h.start, h.lastStatTs⟩, rfl⟩
  · rw [step_process heq] at hstep
    cases hstep
    exact ⟨⟨h.interval, h.first, h.sent, h.bytes, h.sizes, h.start, h.lastStatTs⟩, rfl⟩

/-- The report that the statistics make at `now`. -/
def reportAt (l : QosLedger) (now : Nat) (q : List Nat) : WindowReport where
  report := l.mem.reportOf (UInt32.ofNat (l.losses now q).length)
  bytes := l.windowBytes
  elapsed := now - l.windowStart

/-- The statistics make the report of their window, or none, and count on. -/
theorem Counted.stat (h : l.Counted) (hbal : l.Balanced q) {advance : Nat}
    (hstep : l.step round (.stat advance) = some l') :
    l'.Counted ∧
      l'.reports = l.reports ++
        if l.mem.lastStatTs ≠ 0 ∧ l.mem.ReportsAt (UInt32.ofNat (l.clock + advance)) then
          [l.reportAt (l.clock + advance) q] else [] := by
  have hclock : l.windowStart ≤ l.clock + advance := Nat.le_add_right_of_le h.start
  rcases QosMemory.stat_cases hbal.queue hbal.created (UInt32.ofNat (l.clock + advance)) with
    ⟨h0, heq⟩ | ⟨h0, links, loss, -, hloss, ⟨hrep, heq⟩ | ⟨hrep, heq⟩⟩
  · rw [step_stat heq] at hstep
    cases hstep
    rw [if_neg (fun hc => hc.1 h0), List.append_nil]
    refine ⟨⟨h.interval, h.first, h.sent, h.bytes, h.sizes, ?_, fun _ => ?_⟩, rfl⟩
    · show (if l.mem.lastStatTs = 0 then l.clock + advance else l.windowStart) ≤ l.clock + advance
      rw [if_pos h0]
    · show UInt32.ofNat (l.clock + advance)
        = UInt32.ofNat (if l.mem.lastStatTs = 0 then l.clock + advance else l.windowStart)
      rw [if_pos h0]
  · rw [step_stat heq] at hstep
    cases hstep
    rw [if_neg (fun hc => hrep hc.2), List.append_nil]
    refine ⟨⟨h.interval, h.first, h.sent, h.bytes, h.sizes, ?_, fun _ => ?_⟩, rfl⟩
    · show (if l.mem.lastStatTs = 0 then l.clock + advance else l.windowStart) ≤ l.clock + advance
      rw [if_neg h0]
      exact hclock
    · show l.mem.lastStatTs
        = UInt32.ofNat (if l.mem.lastStatTs = 0 then l.clock + advance else l.windowStart)
      rw [if_neg h0]
      exact h.lastStatTs h0
  · rw [step_stat heq] at hstep
    cases hstep
    have hreport : l.mem.reportOf loss
        = l.mem.reportOf (UInt32.ofNat (l.losses (l.clock + advance) q).length) := by
      rw [hloss, hbal.counter, losses, List.length_append, ← UInt32.ofNat_add]
    rw [if_pos ⟨h0, hrep⟩, reportAt, ← hreport]
    refine ⟨⟨h.interval, Nat.le_refl _, ?_, rfl, ?_, Nat.le_refl _, fun _ => rfl⟩, rfl⟩
    · show 0 = UInt32.ofNat (l.mem.created - l.mem.created)
      rw [Nat.sub_self]
      rfl
    · show qosHdrLen * (l.mem.created - l.mem.created) ≤ 0
      rw [Nat.sub_self]
      exact Nat.le_refl _

/-! ## One report -/

/-- The losses are different packages, all of which have been created. -/
theorem losses_nodup (hbal : l.Balanced q) (now : Nat) :
    (l.losses now q).Nodup ∧ ∀ k ∈ l.losses now q, k < l.mem.created := by
  have hall : (l.mem.keptAt (UInt32.ofNat now) q ++ l.acked ++ (l.lost ++
      l.mem.lostAt (UInt32.ofNat now) q)).Perm (List.range l.mem.created) :=
    hbal.perm_lost (kept_lost_perm l.mem (UInt32.ofNat now) q)
  have hsub : (l.losses now q).Sublist (l.mem.keptAt (UInt32.ofNat now) q ++ l.acked ++
      (l.lost ++ l.mem.lostAt (UInt32.ofNat now) q)) :=
    ((List.drop_sublist _ _).append_right _).trans (List.sublist_append_right _ _)
  exact ⟨(hall.nodup_iff.mpr List.nodup_range).sublist hsub, fun k hk =>
    List.mem_range.mp (hall.subset (hsub.subset hk))⟩

/-- Of the window's own packages no more are lost than were created. -/
theorem own_losses_le (hbal : l.Balanced q) (now : Nat) :
    (l.losses now q).countP (fun k => decide (l.windowFirst ≤ k)) ≤ l.made := by
  obtain ⟨hnodup, hlt⟩ := losses_nodup hbal now
  rw [List.countP_eq_length_filter, made]
  have hsub : (l.losses now q).filter (fun k => decide (l.windowFirst ≤ k)) ⊆
      List.range' l.windowFirst (l.mem.created - l.windowFirst) := by
    intro k hk
    obtain ⟨hmem, hge⟩ := List.mem_filter.mp hk
    have hge' : l.windowFirst ≤ k := by simpa using hge
    have hk' := hlt k hmem
    rw [List.mem_range'_1]
    omega
  have hle := ((hnodup.filter _).subperm hsub).length_le
  rwa [List.length_range'] at hle

/-- The losses of older packages and of the window's own. -/
theorem losses_split (l : QosLedger) (now : Nat) (q : List Nat) :
    (l.losses now q).countP (fun k => decide (k < l.windowFirst)) +
      (l.losses now q).countP (fun k => decide (l.windowFirst ≤ k))
        = (l.losses now q).length := by
  rw [List.length_eq_countP_add_countP (fun k => decide (k < l.windowFirst))]
  simp

/-- When a report is made, the interval has passed. -/
theorem Counted.elapsed (h : l.Counted) (h0 : l.mem.lastStatTs ≠ 0) {advance : Nat}
    (hrep : l.mem.ReportsAt (UInt32.ofNat (l.clock + advance))) :
    1000 ≤ l.clock + advance - l.windowStart := by
  have hstart := h.start
  unfold QosMemory.ReportsAt at hrep
  rw [h.interval, h.lastStatTs h0, i32] at hrep
  have hsub : (UInt32.ofNat (l.clock + advance) - UInt32.ofNat l.windowStart).toNat
      = (l.clock + advance - l.windowStart) % 4294967296 := by
    rw [UInt32.toNat_sub, UInt32.toNat_ofNat', UInt32.toNat_ofNat']
    omega
  rw [hsub] at hrep
  split at hrep
  · omega
  · omega

/-- The bandwidth that is printed, when nothing wraps around. -/
theorem Counted.bandwidth (h : l.Counted) (hsmall : 8 * l.windowBytes < 4294967296)
    (lost : UInt32) : (l.mem.reportOf lost).bandwidth.toNat = 8 * l.windowBytes := by
  show (l.mem.sentBytes * 8 / UInt32.ofNat (u32 (l.mem.statInterval.tdiv 1000))).toNat = _
  rw [h.interval, h.bytes]
  have hsecs : UInt32.ofNat (u32 (Int.tdiv 1000 1000)) = 1 := by decide
  have hbits : (UInt32.ofNat l.windowBytes * 8).toNat = 8 * l.windowBytes := by
    have h8 : UInt32.toNat 8 = 8 := rfl
    rw [UInt32.toNat_mul, UInt32.toNat_ofNat', h8]
    omega
  rw [hsecs, UInt32.toNat_div, hbits]
  exact Nat.div_one _

/-- A window that counts its bytes without wrapping counts its packages without wrapping. -/
theorem Counted.sent_toNat (h : l.Counted) (hsmall : 8 * l.windowBytes < 4294967296) :
    l.mem.sentPackagesPerSecs.toNat = l.made := by
  have hsizes := h.sizes
  unfold qosHdrLen at hsizes
  rw [h.sent, UInt32.toNat_ofNat']
  omega

/-- The report of a good window is in order. -/
theorem Counted.report_ok (h : l.Counted) (hbal : l.Balanced q) (h0 : l.mem.lastStatTs ≠ 0)
    {advance : Nat} (hrep : l.mem.ReportsAt (UInt32.ofNat (l.clock + advance)))
    (hgood : l.GoodWindow (l.clock + advance) q) : (l.reportAt (l.clock + advance) q).Ok := by
  have helapsed := h.elapsed h0 hrep
  have hsplit := losses_split l (l.clock + advance) q
  have hown := own_losses_le hbal (l.clock + advance)
  obtain ⟨hbusy, hsmall, hshort, hcarried⟩ := hgood
  have hmade : 0 < l.made := Nat.sub_pos_of_lt hbusy
  have hsent := h.sent_toNat hsmall
  have hloss : UInt32.ofNat (l.losses (l.clock + advance) q).length
      ≤ l.mem.sentPackagesPerSecs := by
    rw [UInt32.le_iff_toNat_le, hsent, UInt32.toNat_ofNat']
    exact (Nat.mod_le _ _).trans (by omega)
  refine ⟨?_, hloss, NwcQosReport.lossRate_le_one ?_ hloss, hsmall, ?_⟩
  · show 0 < l.mem.sentPackagesPerSecs
    rw [UInt32.lt_iff_toNat_lt, hsent]
    exact hmade
  · show l.mem.statInterval.tdiv 1000 = 1
    rw [h.interval]
    rfl
  · show _ = 8 * l.windowBytes / ((l.clock + advance - l.windowStart) / 1000)
    have hsecs : (l.clock + advance - l.windowStart) / 1000 = 1 := by omega
    rw [hsecs, Nat.div_one]
    exact h.bandwidth hsmall _

/-- And only good windows have such a report, while the packages can be numbered with 32 bits. -/
theorem Counted.good_of_ok (h : l.Counted) (hbal : l.Balanced q) {now : Nat}
    (hnum : l.mem.created < 4294967296) (hok : (l.reportAt now q).Ok) : l.GoodWindow now q := by
  obtain ⟨hdiv, hloss, -, hsmall, hband⟩ := hok
  have hsplit := losses_split l now q
  have hlen : (l.losses now q).length ≤ l.mem.created := by
    obtain ⟨hnodup, hlt⟩ := losses_nodup hbal now
    simpa using (hnodup.subperm fun k hk => List.mem_range.mpr (hlt k hk)).length_le
  have hsizes := h.sizes
  have hsent := h.sent_toNat hsmall
  have hbusy : 0 < l.made := by
    have hdiv' : 0 < l.mem.sentPackagesPerSecs := hdiv
    rwa [UInt32.lt_iff_toNat_lt, hsent] at hdiv'
  refine ⟨Nat.lt_of_sub_pos hbusy, hsmall, ?_, ?_⟩
  · have hband' : 8 * l.windowBytes = 8 * l.windowBytes / ((now - l.windowStart) / 1000) :=
      (h.bandwidth hsmall _).symm.trans hband
    by_contra hlong
    have hsecs : 2 ≤ (now - l.windowStart) / 1000 := by omega
    have hle : 8 * l.windowBytes / ((now - l.windowStart) / 1000) ≤ 8 * l.windowBytes / 2 :=
      Nat.div_le_div_left hsecs Nat.two_pos
    unfold qosHdrLen at hsizes
    omega
  · have hloss' : UInt32.ofNat (l.losses now q).length ≤ l.mem.sentPackagesPerSecs := hloss
    rw [UInt32.le_iff_toNat_le, hsent, UInt32.toNat_ofNat'] at hloss'
    omega

/-! ## Runs -/

/-- The books and the counters are in order. -/
def Kept (l : QosLedger) : Prop := (∃ q, l.Balanced q) ∧ l.Counted

/-- One event: what it reports, and that the books and the counters stay in order. -/
theorem Kept.step (h : l.Kept) {e : QosEvent} (hstep : l.step round e = some l') :
    l'.Kept ∧ l.mem.created ≤ l'.mem.created ∧ ∃ new, l'.reports = l.reports ++ new ∧
      (l.ReportsGood e → ∀ r ∈ new, r.Ok) ∧
      (l.mem.created < 4294967296 → (∀ r ∈ new, r.Ok) → l.ReportsGood e) := by
  obtain ⟨⟨q, hbal⟩, hcount⟩ := h
  have hbal' : ∃ q', l'.Balanced q' := by
    obtain ⟨l₁, q', hstep', hbal'⟩ := hbal.step round e
    rw [hstep] at hstep'
    cases hstep'
    exact ⟨q', hbal'⟩
  have hcreated : l.mem.created ≤ l'.mem.created := by
    rw [hbal.step_created hstep]
    exact Nat.le_add_right _ _
  match e with
  | .create pkglen block now =>
    cases hstep
    exact ⟨⟨hbal', hcount.create pkglen block now⟩, hcreated, [], (List.append_nil _).symm,
      fun _ r hr => absurd hr List.not_mem_nil, fun _ _ => trivial⟩
  | .process pkg recvTs =>
    obtain ⟨hcount', hreports⟩ := hcount.process hbal hstep
    exact ⟨⟨hbal', hcount'⟩, hcreated, [], by rw [hreports, List.append_nil],
      fun _ r hr => absurd hr List.not_mem_nil, fun _ _ => trivial⟩
  | .stat advance =>
    obtain ⟨hcount', hreports⟩ := hcount.stat hbal hstep
    refine ⟨⟨hbal', hcount'⟩, hcreated, _, hreports, fun hgood r hr => ?_, fun hnum hok => ?_⟩
    · split at hr
      · rename_i hrep
        rw [List.mem_singleton.mp hr]
        exact hcount.report_ok hbal hrep.1 hrep.2 (hgood hrep.1 hrep.2 q hbal.queue)
      · exact absurd hr List.not_mem_nil
    · intro h0 hrep q' hq'
      rw [hq'.unique hbal.queue]
      refine hcount.good_of_ok hbal hnum (hok _ ?_)
      rw [if_pos ⟨h0, hrep⟩]
      exact List.mem_singleton_self _

/-- A report stays in the log, and no package is taken back. -/
theorem Kept.replay (h : l.Kept) {es : List QosEvent}
    (hrun : Machine.replay (QosLedger.step round) l es = some l') :
    l'.Kept ∧ l.mem.created ≤ l'.mem.created ∧ l.reports ⊆ l'.reports := by
  refine replay_invariant (P := fun t => t.Kept ∧ l.mem.created ≤ t.mem.created ∧
    l.reports ⊆ t.reports) (I := fun _ => True) ?_ (fun _ _ => trivial)
    ⟨h, Nat.le_refl _, fun _ hr => hr⟩ hrun
  rintro s e t - ⟨hs, hle, hsub⟩ hst
  obtain ⟨ht, hle', new, hnew, -, -⟩ := hs.step hst
  refine ⟨ht, hle.trans hle', fun r hr => ?_⟩
  rw [hnew]
  exact List.mem_append_left _ (hsub hr)

/-- A new connection in cleared memory. -/
def fresh : QosLedger := init 6250 ⟨fun _ => .null, fun _ => .null⟩ 0

end QosLedger

end Nwchecker

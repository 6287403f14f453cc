import BlockSync.Proofs.Peer.Window

/-! Reports of the speed at which blocks come in. However blocks and reports follow each other, and
wherever the clock jumps, the timer that a report looks at never goes back, so that reports are
spaced apart. -/

namespace BlockSync

/-- A report about a block number, with what is left up to the peer's head if that is above. -/
structure SpeedReport.Foretells (r : SpeedReport) (num : UInt32) (remoteHead : Option UInt32) :
    Prop where
  blockNum : r.blockNum = num
  isSome : r.remaining.isSome = true ↔ ∃ head, remoteHead = some head ∧ num < head
  difference : ∀ left time, r.remaining = some (left, time) →
    ∃ head, remoteHead = some head ∧ num.toNat + left.toNat = head.toNat

namespace Throughput

inductive Reported (t : Throughput) (now : Instant) (blockNum : UInt32)
    (remoteHead : Option UInt32) : Throughput × Option SpeedReport → Prop
  | early : now.since (t.lastReport.getD now) < reportInterval →
      Reported t now blockNum remoteHead
        ({ t with lastReport := some (t.lastReport.getD now) }, none)
  | idle : reportInterval ≤ now.since (t.lastReport.getD now) →
      Reported t now blockNum remoteHead ({ t with lastReport := some now }, none)
  | due {r} : reportInterval ≤ now.since (t.lastReport.getD now) →
      r.Foretells blockNum remoteHead →
      Reported t now blockNum remoteHead ({ t with lastReport := some now }, some r)

def Apart (q q' : Inquiry) : Prop :=
  q.answer.isSome = true → q'.answer.isSome = true → Duration.ofSeconds 10 ≤ q'.now.since q.now

/-- Reports in a row, up to a state of the timer. -/
structure Spaced (first : Inquiry) (rest : List Inquiry) (last : Instant) : Prop where
  silent : first.answer = none
  begun : first.now ≤ last
  reached : ∀ q ∈ rest, q.answer.isSome = true →
    q.now ≤ last ∧ Duration.ofSeconds 10 ≤ q.now.since first.now
  apart : rest.Pairwise Apart

def Timed : List Inquiry → Option Instant → Prop
  | [], timer => timer = none
  | first :: rest, timer => ∃ last, timer = some last ∧ Spaced first rest last

section

variable {t : Throughput} {now last : Instant} {blockNum : UInt32} {remoteHead : Option UInt32}
  {first : Inquiry} {rest qs : List Inquiry}

theorem since_self (now : Instant) : now.since now = 0 := by
  rw [Instant.since, Int.sub_self]
  rfl

theorem since_le_since {earlier : Instant} (h : earlier ≤ last) :
    now.since last ≤ now.since earlier := Int.toNat_le_toNat (Int.sub_le_sub_left h now)

theorem le_of_reportInterval_le (h : reportInterval ≤ now.since last) : last ≤ now := by
  by_contra hback
  have hnone : now.since last = 0 :=
    Int.toNat_of_nonpos (Int.sub_nonpos_of_le (Int.le_of_lt (Int.not_le.mp hback)))
  rw [hnone] at h
  exact absurd h (by decide)

theorem foretells (blocksPerSecond kilobytesPerSecond : Float) (blockNum : UInt32)
    (remoteHead : Option UInt32) :
    SpeedReport.Foretells
      { blocksPerSecond, kilobytesPerSecond, blockNum,
        remaining :=
          match remoteHead with
          | none => none
          | some head =>
            if blockNum < head then
              some (head - blockNum, timeFor (head - blockNum) blocksPerSecond)
            else none } blockNum remoteHead := by
  cases remoteHead with
  | none => exact ⟨rfl, by simp, nofun⟩
  | some head =>
    by_cases hlt : blockNum < head
    · have hle := UInt32.le_of_lt hlt
      have hsub := UInt32.toNat_sub_of_le _ _ hle
      rw [UInt32.le_iff_toNat_le] at hle
      refine ⟨rfl, by simp [hlt], fun left time hleft => ⟨head, rfl, ?_⟩⟩
      simp only [hlt, if_true, Option.some.injEq, Prod.mk.injEq] at hleft
      rw [← hleft.1, hsub]
      omega
    · exact ⟨rfl, by simp [hlt], fun left time hleft => by simp [hlt] at hleft⟩

theorem reported (t : Throughput) (now : Instant) (blockNum : UInt32)
    (remoteHead : Option UInt32) :
    Reported t now blockNum remoteHead (t.report now blockNum remoteHead) := by
  unfold Throughput.report
  dsimp only
  split
  · next hearly => exact .early hearly
  next hdue =>
  rw [Nat.not_lt] at hdue
  split
  · exact .idle hdue
  · exact .due hdue (foretells _ _ blockNum remoteHead)

theorem Spaced.report (h : Spaced first rest last) (ht : t.lastReport = some last)
    {result : Throughput × Option SpeedReport} (hr : Reported t now blockNum remoteHead result) :
    ∃ next, result.1.lastReport = some next ∧
      Spaced first (rest ++ [⟨now, blockNum, remoteHead, result.2⟩]) next := by
  have hlast : t.lastReport.getD now = last := by rw [ht, Option.getD_some]
  have hquiet (next : Instant) (hnext : last ≤ next) :
      Spaced first (rest ++ [⟨now, blockNum, remoteHead, none⟩]) next := by
    refine ⟨h.silent, Int.le_trans h.begun hnext, fun q hq hgiven => ?_, ?_⟩
    · rcases List.mem_append.mp hq with hq | hq
      · obtain ⟨hle, hspan⟩ := h.reached q hq hgiven
        exact ⟨Int.le_trans hle hnext, hspan⟩
      · rw [List.mem_singleton.mp hq] at hgiven
        cases hgiven
    · refine List.pairwise_append.mpr ⟨h.apart, List.pairwise_singleton _ _, ?_⟩
      intro q _ q' hq' _ hgiven
      rw [List.mem_singleton.mp hq'] at hgiven
      cases hgiven
  cases hr with
  | early => exact ⟨last, congrArg some hlast, hquiet last (Int.le_refl _)⟩
  | idle hdue =>
    rw [hlast] at hdue
    exact ⟨now, rfl, hquiet now (le_of_reportInterval_le hdue)⟩
  | due hdue =>
    rw [hlast] at hdue
    have hlater := le_of_reportInterval_le hdue
    refine ⟨now, rfl, h.silent, Int.le_trans h.begun hlater, fun q hq hgiven => ?_, ?_⟩
    · rcases List.mem_append.mp hq with hq | hq
      · obtain ⟨hle, hspan⟩ := h.reached q hq hgiven
        exact ⟨Int.le_trans hle hlater, hspan⟩
      · rw [List.mem_singleton.mp hq]
        exact ⟨Int.le_refl _, Nat.le_trans hdue (since_le_since h.begun)⟩
    · refine List.pairwise_append.mpr ⟨h.apart, List.pairwise_singleton _ _, ?_⟩
      intro q hq q' hq' hgiven _
      obtain ⟨hle, -⟩ := h.reached q hq hgiven
      rw [List.mem_singleton.mp hq']
      exact Nat.le_trans hdue (since_le_since hle)

theorem spaced_first (ht : t.lastReport = none) {result : Throughput × Option SpeedReport}
    (hr : Reported t now blockNum remoteHead result) :
    result.1.lastReport = some now ∧ Spaced ⟨now, blockNum, remoteHead, result.2⟩ [] now := by
  have hlast : t.lastReport.getD now = now := by rw [ht, Option.getD_none]
  have hnever : ¬ reportInterval ≤ now.since (t.lastReport.getD now) := by
    rw [hlast, since_self]
    decide
  cases hr with
  | early => exact ⟨congrArg some hlast, rfl, Int.le_refl _, nofun, .nil⟩
  | idle hdue | due hdue => exact absurd hdue hnever

theorem Timed.report (h : Timed qs t.lastReport) {result : Throughput × Option SpeedReport}
    (hr : Reported t now blockNum remoteHead result) :
    Timed (qs ++ [⟨now, blockNum, remoteHead, result.2⟩]) result.1.lastReport := by
  cases qs with
  | nil => exact ⟨now, spaced_first h hr⟩
  | cons first rest =>
    obtain ⟨last, hlast, hspaced⟩ := h
    exact hspaced.report hlast hr

theorem lastReport_record (t : Throughput) (size : Nat) (now : Instant) :
    (t.record size now).lastReport = t.lastReport := by
  unfold Throughput.record
  split
  · rfl
  · dsimp only
    split <;> rfl

theorem timed_after (uses : List Use) :
    Timed (Logbook.after uses).inquiries (Logbook.after uses).throughput.lastReport := by
  refine Logbook.after_induction (P := fun book => Timed book.inquiries book.throughput.lastReport)
    rfl (fun book u h => ?_) uses
  cases u with
  | block size now =>
    change Timed book.inquiries (book.throughput.record size now).lastReport
    rw [lastReport_record]
    exact h
  | report now blockNum remoteHead => exact h.report (reported _ now blockNum remoteHead)
  | clear => exact rfl

theorem foretells_after (uses : List Use) :
    ∀ q ∈ (Logbook.after uses).inquiries, ∀ r, q.answer = some r →
      r.Foretells q.blockNum q.remoteHead := by
  refine Logbook.after_induction (P := fun book => ∀ q ∈ book.inquiries, ∀ r, q.answer = some r →
    r.Foretells q.blockNum q.remoteHead) nofun (fun book u h => ?_) uses
  cases u with
  | block size now => exact h
  | report now blockNum remoteHead =>
    intro q hq r hr
    rcases List.mem_append.mp hq with hq | hq
    · exact h q hq r hr
    · rw [List.mem_singleton.mp hq] at hr ⊢
      change (book.throughput.report now blockNum remoteHead).2 = some r at hr
      have hreported := reported book.throughput now blockNum remoteHead
      generalize book.throughput.report now blockNum remoteHead = result at hr hreported
      cases hreported with
      | early | idle => cases hr
      | due _ hforetells =>
        cases hr
        exact hforetells
  | clear => exact nofun

end

/-- However blocks and reports follow each other, and whatever the times are: since the measures
were cleared, the first report that was asked for is not given, and none within ten seconds of it;
any two that are given are ten seconds apart; and each tells how many blocks are left up to the
peer's head just if that is known and above. -/
theorem reports_are_spaced (uses : List Use) :
    let asked := (Logbook.after uses).inquiries
    (∀ first ∈ asked.head?, first.answer = none ∧
      ∀ q ∈ asked, q.now.since first.now < Duration.ofSeconds 10 → q.answer = none) ∧
    asked.Pairwise Apart ∧
    ∀ q ∈ asked, ∀ r, q.answer = some r → r.Foretells q.blockNum q.remoteHead := by
  intro asked
  have htimed : Timed asked _ := timed_after uses
  refine ⟨?_, ?_, foretells_after uses⟩
  · intro first hfirst
    obtain ⟨rest, hasked⟩ := List.head?_eq_some_iff.mp hfirst
    rw [hasked] at htimed ⊢
    obtain ⟨last, -, hspaced⟩ := htimed
    refine ⟨hspaced.silent, fun q hq hearly => ?_⟩
    rcases List.mem_cons.mp hq with rfl | hq
    · exact hspaced.silent
    · rw [← Option.not_isSome_iff_eq_none]
      intro hgiven
      exact absurd hearly (Nat.not_lt.mpr (hspaced.reached q hq hgiven).2)
  · cases hasked : asked with
    | nil => exact .nil
    | cons first rest =>
      rw [hasked] at htimed
      obtain ⟨last, -, hspaced⟩ := htimed
      refine List.pairwise_cons.mpr ⟨fun q _ hgiven => ?_, hspaced.apart⟩
      rw [hspaced.silent] at hgiven
      cases hgiven

theorem report_early {t : Throughput} {last : Instant} (now : Instant)
    (ht : t.lastReport = some last) (h : now.since last < reportInterval) (blockNum : UInt32) (remoteHead : Option UInt32) :
    t.report now blockNum remoteHead = (t, none) := by
  have hlast : t.lastReport.getD now = last := by rw [ht, Option.getD_some]
  unfold Throughput.report
  dsimp only
  rw [hlast, if_pos h, ← ht]

theorem report_due {t : Throughput} {last : Instant} (now : Instant)
    (ht : t.lastReport = some last) (hdue : reportInterval ≤ now.since last) (blockNum : UInt32) (remoteHead : Option UInt32) :
    (t.report now blockNum remoteHead).1 = { t with lastReport := some now } ∧
      (t.rates.isSome = true → (t.report now blockNum remoteHead).2.isSome = true) := by
  have hlast : t.lastReport.getD now = last := by rw [ht, Option.getD_some]
  have hrates : ({ t with lastReport := some now } : Throughput).rates = t.rates := rfl
  unfold Throughput.report
  dsimp only
  rw [hlast, if_neg (Nat.not_lt.mpr hdue), hrates]
  rcases t.rates with _ | ⟨blocks, kilobytes⟩
  · exact ⟨rfl, nofun⟩
  · exact ⟨rfl, fun _ => rfl⟩

theorem use_report (book : Logbook) (now : Instant) (blockNum : UInt32)
    (remoteHead : Option UInt32) :
    book.use (.report now blockNum remoteHead) =
      { book with
        throughput := (book.throughput.report now blockNum remoteHead).1
        inquiries := book.inquiries ++
          [⟨now, blockNum, remoteHead, (book.throughput.report now blockNum remoteHead).2⟩] } :=
  rfl

/-- A report, and a slot of blocks since the measures were cleared. -/
def slotUses : List Use :=
  [.report 40 1 none, .clear, .report 0 1 none] ++
    (List.range 121).map fun i => .block 100 (50000000 * i)

/-- The clock goes back, and then two reports are due. -/
def laterReports : List Use :=
  [.report (-5) 121 none, .report 11000000000 121 (some 200), .report 22000000000 130 (some 125)]

/-- When the slot has rates the two reports are given, and they are eleven seconds apart. -/
theorem reports_are_spaced_of_slot :
    ∃ first early second third,
      (Logbook.after (slotUses ++ laterReports)).inquiries = [first, early, second, third] ∧
      first.answer = none ∧ early.answer = none ∧
      ((Logbook.after slotUses).throughput.rates.isSome = true →
        ∃ r r', second.answer = some r ∧ third.answer = some r' ∧
          Duration.ofSeconds 10 ≤ third.now.since second.now ∧
          r.Foretells 121 (some 200) ∧ r'.Foretells 130 (some 125)) := by
  obtain ⟨hfirst, hapart, hforetells⟩ := reports_are_spaced (slotUses ++ laterReports)
  have hone : (Logbook.after slotUses).inquiries.map Inquiry.now = [0] := by decide +kernel
  have htimer : (Logbook.after slotUses).throughput.lastReport = some 0 := by decide +kernel
  have hafter : Logbook.after (slotUses ++ laterReports) =
      laterReports.foldl Logbook.use (Logbook.after slotUses) := List.foldl_append
  rw [hafter] at hfirst hapart hforetells ⊢
  generalize Logbook.after slotUses = book at hone htimer hfirst hapart hforetells ⊢
  obtain ⟨first, hasked, -⟩ := List.map_eq_singleton_iff.mp hone
  have hearly := report_early (-5) htimer (by decide) 121 none
  obtain ⟨hnext, hsecond⟩ := report_due 11000000000 htimer (by decide) 121 (some 200)
  obtain ⟨-, hthird⟩ := report_due (t := { book.throughput with lastReport := some 11000000000 })
    22000000000 rfl (by decide) 130 (some 125)
  simp only [laterReports, List.foldl_cons, List.foldl_nil, use_report, hearly, hnext, hasked,
    List.cons_append, List.nil_append] at hfirst hapart hforetells ⊢
  refine ⟨_, _, _, _, rfl, (hfirst _ rfl).1, rfl, fun hrates => ?_⟩
  obtain ⟨r, hr⟩ := Option.isSome_iff_exists.mp (hsecond hrates)
  obtain ⟨r', hr'⟩ := Option.isSome_iff_exists.mp (hthird hrates)
  simp only [hr, hr', List.pairwise_cons, List.forall_mem_cons] at hapart hforetells
  refine ⟨r, r', hr, hr', hapart.2.2.1.1 rfl rfl, ?_, ?_⟩
  · exact hforetells.2.2.1 r rfl
  · exact hforetells.2.2.2.1 r' rfl

end Throughput

end BlockSync

import VerifiableExchange.Poller.BatchLaw
import VerifiableExchange.Poller.Reload

/-!
# Backed — every run on disk is the run of an engine

The batches committed to a run tell its story: each one ran from where the one before it ended.
Wherever a process is cut, the rows of every run are those of the engine its last batch left, and
no stored trade is ever taken away.
-/

namespace VerifiableExchange

open Lib Matcher

namespace Matcher
namespace MatcherState

theorem SameMarket.refl (s : MatcherState) : SameMarket s s := ⟨rfl, rfl, rfl, rfl, rfl⟩

theorem SameMarket.trans {s t u : MatcherState} (h : SameMarket s t) (h' : SameMarket t u) :
    SameMarket s u :=
  ⟨h'.books.trans h.books, h'.openOrders.trans h.openOrders, h'.symbols.trans h.symbols,
    h'.totals.trans h.totals, h'.lastSeen.trans h.lastSeen⟩

theorem SameMarket.symm {s t : MatcherState} (h : SameMarket s t) : SameMarket t s :=
  ⟨h.books.symm, h.openOrders.symm, h.symbols.symm, h.totals.symm, h.lastSeen.symm⟩

theorem shows_new : Shows .empty .new where
  orders := .empty
  listings _ := rfl
  trades := Totals.kept_empty

theorem steady_new : Steady .new := by
  have hopening : ExecutionGenesis.synthetic.opening none none false = .ok .new := rfl
  exact .of_wellFormed (wellFormed_opening hopening) (Nat.zero_le 0)

end MatcherState
end Matcher

namespace Store
namespace Tables

open MatcherState

/-! ## One run -/

/-- The rows of a run on disk are those of this engine. -/
structure Backs (t : Tables) (run : Int) (s : MatcherState) : Prop where
  shown : ∃ r, Holds t run r ∧ Shows r s
  steady : s.Steady
  fits : (s.lastSeen : Int) ≤ i64Max
  cursor : ∀ point, t.resumePoint.get? run = some point → point.lastSeen.val = s.lastSeen

namespace Backs

variable {t t' : Tables} {run : Int} {s s' : MatcherState}

theorem of_untouched (h : t.Backs run s) (hrows : Untouched t t' run) : t'.Backs run s where
  shown := h.shown.imp (fun _ hr => ⟨hr.1.of_untouched hrows, hr.2⟩)
  steady := h.steady
  fits := h.fits
  cursor point hpoint := h.cursor point (hrows.point ▸ hpoint)

theorem of_same (h : t.Backs run s) (hsame : SameMarket s s') : t.Backs run s' where
  shown := h.shown.imp (fun _ hr => ⟨hr.1, hr.2.of_same hsame⟩)
  steady := h.steady.of_same hsame
  fits := by
    rw [hsame.lastSeen]
    exact h.fits
  cursor point hpoint := by
    rw [hsame.lastSeen]
    exact h.cursor point hpoint

/-- The trades of the run are those the engine made, each under its number. -/
theorem trades (h : t.Backs run s) : ∃ rows, s.totals.Kept rows ∧
    (rows.length : Int) ≤ i64Max ∧
      rowsOf t.trades run = rows.map (fun row => (asI64 row.tradeId, row)) := by
  obtain ⟨r, hholds, hshows⟩ := h.shown
  refine ⟨r.trades, hshows.trades, ?_, hholds.trades⟩
  have hcounted : s.tradesTotal + s.openOrders.size ≤ s.lastSeen := h.steady.counted
  have hcount : s.tradesTotal = r.trades.length := hshows.trades.count
  have hfits := h.fits
  omega

variable {store : Handle} {now : Int} {changes : List Change} {counters : Counters}
  {claim : Option ClaimRow} {r : RunRows}

/-- A commit of what an engine recorded leaves its rows, and every trade that was there. -/
theorem of_commit (hholds : Holds t store.runId r) (hids : IdsFit (some changes))
    (hshows : Shows (r.after (some changes)) s) (hsteady : s.Steady)
    (hseen : counters.lastSeen = s.lastSeen)
    (hcommit : t.commit store now changes counters claim = .ok t') :
    t'.Backs store.runId s ∧ Grown t t' := by
  have hdone := commit_eq_ok hcommit
  have hfits : (s.lastSeen : Int) ≤ i64Max := by
    rw [← hseen]
    exact hdone.fits
  have hlength : ((r.after (some changes)).trades.length : Int) ≤ i64Max := by
    have hcounted : s.tradesTotal + s.openOrders.size ≤ s.lastSeen := hsteady.counted
    have hcount : s.tradesTotal = _ := hshows.trades.count
    omega
  have hnumbered : Numbered (r.after (some changes)).trades := hshows.trades.numbered
  refine ⟨⟨⟨_, hholds.commit hids hnumbered hlength hcommit, hshows⟩, hsteady, hfits,
    fun point hpoint => ?_⟩, hholds.grown_commit hids hnumbered hlength hcommit⟩
  have hcursor := hdone.cursor
  rw [hpoint, Option.map_some, Option.some.injEq] at hcursor
  rw [hcursor, integer_val hdone.fits, hseen]

/-- A commit without a batch leaves the rows as they were. -/
theorem commit (h : t.Backs store.runId s) (hsame : SameMarket s s')
    (hchanges : changes = [] ∨ ∃ execution, changes = [.executionState execution])
    (hseen : counters.lastSeen = s'.lastSeen)
    (hcommit : t.commit store now changes counters claim = .ok t') :
    t'.Backs store.runId s' ∧ Grown t t' := by
  obtain ⟨r, hholds, hshows⟩ := h.shown
  have hids : IdsFit (some changes) := by
    intro change hchange id hid
    rcases hchanges with rfl | ⟨execution, rfl⟩
    · cases hchange
    · rw [List.mem_singleton.1 hchange] at hid
      cases hid
  have hrows : r.after (some changes) = r := by
    rcases hchanges with rfl | ⟨execution, rfl⟩
    · rfl
    · rfl
  refine of_commit hholds hids ?_ (h.steady.of_same hsame) hseen hcommit
  rw [hrows]
  exact hshows.of_same hsame

/-- The commit of a batch leaves the rows of the engine that ran it. -/
theorem commitBatch {env : Primitives} {log : List (OrderMessage × Option Bytes)}
    {matcher kept : MatcherState} {pending : Poller.PendingCommit} (h : t.Backs store.runId s)
    (hpending : s.pending = some []) (hrun : MatcherState.run env s log = .ok matcher)
    (htaken : Poller.takePending env matcher = some (pending, kept))
    (hcommit : t.commit store now pending.changes pending.counters claim = .ok t') :
    t'.Backs store.runId kept ∧ Grown t t' ∧ SameMarket matcher kept := by
  obtain ⟨r, hholds, hshows⟩ := h.shown
  have hroom : s.lastSeen < u64Max := by
    have hmax : i64Max < (u64Max : Int) := by decide
    exact Int.ofNat_lt.1 (lt_of_le_of_lt h.fits hmax)
  obtain ⟨hrecords, hsteady⟩ := (hshows.recordsFrom hpending).run h.steady hroom hrun
  obtain ⟨hkept, hids, hafter⟩ := hrecords.takePending htaken
  have hsame : SameMarket matcher kept := by
    rw [hkept]
    exact ⟨rfl, rfl, rfl, rfl, rfl⟩
  have hseen : pending.counters.lastSeen = kept.lastSeen := by
    obtain ⟨_, -, hmade⟩ := Option.map_eq_some_iff.1 htaken
    cases hmade
    rfl
  obtain ⟨hbacks, hgrown⟩ :=
    of_commit hholds hids hafter (hsteady.of_same hsame) hseen hcommit
  exact ⟨hbacks, hgrown, hsame⟩

/-- An engine that is read back is the one the rows are from. -/
theorem reloaded {env : Primitives} {snapshot : Snapshot} {restored : MatcherState}
    (h : t.Backs run s) (hload : t.load run = .ok snapshot)
    (hrestore : MatcherState.restore env snapshot ((rowsOf t.trades run).map Prod.snd) =
      .ok restored) : SameMarket s restored := by
  obtain ⟨r, hholds, hshows⟩ := h.shown
  exact hholds.reloaded hshows h.steady h.fits h.cursor hload hrestore

end Backs
end Tables
end Store

namespace Poller

open Store MatcherState

/-! ## The story of a run -/

/-- The engine some batches left, the empty one before the first. -/
def leftBy (batches : List Batch) : MatcherState := (batches.getLast?.map Batch.after).getD .new

/-- The engine the batches committed to a run left. -/
def Disk.standing (disk : Disk) (run : Int) : MatcherState := leftBy (disk.batchesOf run)

/-- The messages of the batch lead from the engine before it to the one after it. -/
def Batch.Ran (env : Primitives) (batch : Batch) : Prop :=
  ∃ matcher, firstUnread batch.messages = none ∧
    MatcherState.run env batch.before (logOf batch.messages) = .ok matcher ∧
      SameMarket matcher batch.after

/-- Each batch ran, from where the ones before it ended. -/
def Told (env : Primitives) (batches : List Batch) : Prop :=
  ∀ front batch back, batches = front ++ batch :: back →
    SameMarket (leftBy front) batch.before ∧ batch.Ran env

theorem leftBy_concat (batches : List Batch) (batch : Batch) :
    leftBy (batches ++ [batch]) = batch.after := by
  rw [leftBy, List.getLast?_concat]
  rfl

theorem Told.snoc {env : Primitives} {batches : List Batch} (h : Told env batches) {batch : Batch}
    (hbefore : SameMarket (leftBy batches) batch.before) (hran : batch.Ran env) :
    Told env (batches ++ [batch]) := by
  intro front other back hsplit
  rcases List.eq_nil_or_concat back with rfl | ⟨between, last, rfl⟩
  · obtain ⟨rfl, heq⟩ := List.append_inj' hsplit rfl
    cases heq
    exact ⟨hbefore, hran⟩
  · rw [List.concat_eq_append, ← List.cons_append, ← List.append_assoc] at hsplit
    exact h front other between (List.append_inj' hsplit rfl).1

/-! ## The invariant of the database -/

/-- Every run on disk is the run of an engine: its batches tell how the engine got there, its rows
are those of the engine, and every trade that was there at `start` still is. -/
structure Backed (env : Primitives) (start : Tables) (disk : Disk) : Prop where
  backs : ∀ run, disk.tables.Backs run (disk.standing run)
  told : ∀ run, Told env (disk.batchesOf run)
  unopened : ∀ run, disk.tables.runs.get? run = none → disk.batchesOf run = []
  grown : Tables.Grown start disk.tables

namespace Backed

variable {env : Primitives} {start tables : Tables} {disk : Disk} {store : Handle} {now : Int}

theorem rebased (h : Backed env start disk) : Backed env disk.tables disk :=
  { h with grown := .refl disk.tables }

theorem of_kept (h : Backed env start disk) (hkept : ∀ run, KeptRun disk.tables tables run) :
    Backed env start { disk with tables := tables } where
  backs run := (h.backs run).of_untouched (hkept run).rows
  told := h.told
  unopened run hnone := h.unopened run ((hkept run).unopened hnone)
  grown := h.grown.trans (.of_untouched (fun run => (hkept run).rows))

/-- A run that starts has no batches, and its cursor stands at nothing. -/
theorem startRun (h : Backed env start disk) {feedUrl : String} {pid : Int}
    (hstart : disk.tables.startRun feedUrl now pid = .ok (tables, store)) :
    Backed env start { disk with tables := tables } ∧ disk.batchesOf store.runId = [] ∧
      (tables.runs.get? store.runId).isSome = true := by
  obtain ⟨hfree, -, -, row, point, -, -, htables⟩ := Tables.startRun_eq_ok hstart
  obtain ⟨-, -, hothers, -, -⟩ := Tables.startRun_rows hstart
  have hcursor : ∀ point, tables.resumePoint.get? store.runId = some point →
      point.lastSeen.val = 0 := by
    intro found hfound
    simp only [Tables.startRun, bind_eq_ok, require_eq_ok] at hstart
    obtain ⟨_, _, _, _, hstart⟩ := hstart
    cases hstart
    rw [SortedMap.get?_insert_self] at hfound
    cases hfound
    exact integer_val (by decide)
  have hnone := h.unopened store.runId hfree
  refine ⟨⟨fun run => ?_, h.told, fun run hunopened => ?_, h.grown.trans (fun run => ?_)⟩,
    hnone, ?_⟩
  · by_cases hrun : run = store.runId
    · subst hrun
      obtain ⟨⟨r, hholds, hshows⟩, hsteady, hfits, -⟩ := h.backs store.runId
      have hzero : (disk.standing store.runId).lastSeen = 0 := by
        rw [Disk.standing, hnone]
        rfl
      refine ⟨⟨r, ?_, hshows⟩, hsteady, hfits, fun point hpoint => ?_⟩
      · rw [htables]
        exact ⟨hholds.orders, hholds.keyed, hholds.named, hholds.listings, hholds.trades⟩
      · change point.lastSeen.val = ((disk.standing store.runId).lastSeen : Int)
        rw [hcursor point hpoint, hzero]
        rfl
    · exact (h.backs run).of_untouched (hothers run hrun)
  · refine h.unopened run ?_
    change tables.runs.get? run = none at hunopened
    rw [htables] at hunopened
    by_cases hrun : run = store.runId
    · rw [hrun, SortedMap.get?_insert_self] at hunopened
      cases hunopened
    · rwa [SortedMap.get?_insert_of_ne _ hrun] at hunopened
  · rw [htables]
    exact Tables.Grown.refl disk.tables run
  · rw [htables, SortedMap.get?_insert_self]
    rfl

theorem unopened_of_commit {changes : List Change} {counters : Counters} {claim : Option ClaimRow}
    (hcommit : disk.tables.commit store now changes counters claim = .ok tables) {run : Int}
    (hnone : tables.runs.get? run = none) :
    disk.tables.runs.get? run = none ∧ run ≠ store.runId := by
  obtain ⟨row, -, -, hruns⟩ := (Tables.commit_eq_ok hcommit).owned
  rw [hruns] at hnone
  by_cases hrun : run = store.runId
  · rw [hrun, SortedMap.get?_insert_self] at hnone
    cases hnone
  · rw [SortedMap.get?_insert_of_ne _ hrun] at hnone
    exact ⟨hnone, hrun⟩

/-- A commit without a batch leaves every run where it stands. -/
theorem commit (h : Backed env start disk) {changes : List Change} {counters : Counters}
    {claim : Option ClaimRow} {s : MatcherState}
    (hsame : SameMarket (disk.standing store.runId) s)
    (hchanges : changes = [] ∨ ∃ execution, changes = [.executionState execution])
    (hseen : counters.lastSeen = s.lastSeen)
    (hcommit : disk.tables.commit store now changes counters claim = .ok tables) :
    Backed env start { disk with tables := tables } := by
  obtain ⟨hbacks, hgrown⟩ := (h.backs store.runId).commit hsame hchanges hseen hcommit
  refine ⟨fun run => ?_, h.told, fun run hnone => ?_, h.grown.trans hgrown⟩
  · by_cases hrun : run = store.runId
    · subst hrun
      exact hbacks.of_same hsame.symm
    · exact (h.backs run).of_untouched (Tables.commit_untouched hcommit hrun)
  · exact h.unopened run (unopened_of_commit hcommit hnone).1

/-- A batch is one more of its run. -/
theorem commitBatch (h : Backed env start disk) {before matcher kept : MatcherState}
    {messages : List ReadMessage} {pending : PendingCommit} {claim : Option ClaimRow}
    (hsame : SameMarket (disk.standing store.runId) before) (hpending : before.pending = some [])
    (hread : firstUnread messages = none)
    (hrun : MatcherState.run env before (logOf messages) = .ok matcher)
    (htaken : takePending env matcher = some (pending, kept))
    (hcommit : disk.tables.commit store now pending.changes pending.counters claim = .ok tables) :
    Backed env start ⟨tables, disk.batches ++ [⟨store.runId, before, messages, kept⟩]⟩ ∧
      Disk.standing ⟨tables, disk.batches ++ [⟨store.runId, before, messages, kept⟩]⟩ store.runId =
        kept := by
  obtain ⟨hbacks, hgrown, hkept⟩ :=
    ((h.backs store.runId).of_same hsame).commitBatch hpending hrun htaken hcommit
  have hhere : Disk.batchesOf ⟨tables, disk.batches ++ [⟨store.runId, before, messages, kept⟩]⟩
      store.runId = disk.batchesOf store.runId ++ [⟨store.runId, before, messages, kept⟩] := by
    unfold Disk.batchesOf
    rw [List.filter_append, List.filter_singleton, decide_eq_true rfl]
    rfl
  have hothers : ∀ run, run ≠ store.runId →
      Disk.batchesOf ⟨tables, disk.batches ++ [⟨store.runId, before, messages, kept⟩]⟩ run =
        disk.batchesOf run := by
    intro run hne
    unfold Disk.batchesOf
    rw [List.filter_append, List.filter_singleton, decide_eq_false hne.symm]
    exact List.append_nil _
  have hstands : Disk.standing
      ⟨tables, disk.batches ++ [⟨store.runId, before, messages, kept⟩]⟩ store.runId = kept := by
    rw [Disk.standing, hhere, leftBy_concat]
  refine ⟨⟨fun run => ?_, fun run => ?_, fun run hnone => ?_, h.grown.trans hgrown⟩, hstands⟩
  · by_cases hrunId : run = store.runId
    · subst hrunId
      rw [hstands]
      exact hbacks
    · rw [Disk.standing, hothers run hrunId]
      exact (h.backs run).of_untouched (Tables.commit_untouched hcommit hrunId)
  · by_cases hrunId : run = store.runId
    · subst hrunId
      rw [hhere]
      exact (h.told store.runId).snoc hsame ⟨matcher, hread, hrun, hkept⟩
    · rw [hothers run hrunId]
      exact h.told run
  · obtain ⟨hfree, hrunId⟩ := unopened_of_commit hcommit hnone
    rw [hothers run hrunId]
    exact h.unopened run hfree

end Backed

end Poller

end VerifiableExchange

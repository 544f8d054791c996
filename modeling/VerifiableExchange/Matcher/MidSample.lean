import VerifiableExchange.Matcher.Priority
import VerifiableExchange.Matcher.TimeWeighted

/-!
# MidSample — the newest sample is the mid of the book

A message that changes a book records the mid of that book before the next message, and a message
that changes none records nothing. So every window ends with the mid its book shows now, and no
reference price counts a book that is gone as the one that stands.
-/

namespace VerifiableExchange
namespace Matcher

open Lib

/-! ## What an observation leaves last -/

namespace SymbolWindow

theorem getLast?_clipTo (w : SymbolWindow) (clip : Nat) :
    (w.clipTo clip).samples.getLast? = w.samples.getLast? :=
  getLast?_dropBefore clip w.samples

/-- Whatever timestamp it comes with, the mid observed last is the newest sample's. -/
theorem getLast?_observe (w : SymbolWindow) (atMs : Nat) (midCents : Option Int) :
    ∃ moment, (w.observe atMs midCents).samples.getLast? = some (moment, midCents) := by
  unfold observe
  split
  · exact ⟨atMs, by rw [getLast?_clipTo, List.getLast?_concat]⟩
  · rename_i last mid hlast
    obtain ⟨front, hfront⟩ := List.getLast?_eq_some_iff.1 hlast
    dsimp only
    split_ifs with hsame hrepeat
    · refine ⟨last, ?_⟩
      rw [getLast?_clipTo, hfront, setNewestMid_append, List.getLast?_concat]
    · refine ⟨last, ?_⟩
      rw [getLast?_clipTo, hlast, hrepeat]
    · exact ⟨max atMs last, by rw [getLast?_clipTo, List.getLast?_concat]⟩

end SymbolWindow

namespace MatcherState

/-! ## The mid a book shows -/

/-- The middle price of a symbol's book; none when either side is empty. -/
def midCents (s : MatcherState) (symbol : String) : Option Int :=
  (s.bestBidCents symbol).bind (fun bid =>
    (s.bestAskCents symbol).map (fun ask => (bid + ask).tdiv 2))

theorem midCents_congr {s t : MatcherState} {symbol : String}
    (h : t.books.get? symbol = s.books.get? symbol) : t.midCents symbol = s.midCents symbol := by
  simp only [midCents, bestBidCents, bestAskCents, h]

/-- A symbol that is not listed has no book, and so no mid. -/
theorem WellFormed.midCents_of_unlisted {s : MatcherState} (h : s.WellFormed) {symbol : String}
    (hunlisted : SymbolRegistry.listing s.symbols symbol = none) : s.midCents symbol = none := by
  rcases hbid : s.bestBidCents symbol with _ | bid
  · simp [midCents, hbid]
  · exfalso
    simp only [bestBidCents, Option.bind_eq_some_iff, Option.map_eq_some_iff] at hbid
    obtain ⟨book, hbook, ⟨price, level⟩, hfirst, -⟩ := hbid
    have hlevel : levelAt s.books symbol .buy price = some level :=
      levelAt_eq_some.2 ⟨book, hbook, SortedMap.get?_of_last? hfirst⟩
    obtain ⟨o, ho⟩ := List.exists_mem_of_ne_nil level (h.books.level_ne hlevel)
    obtain ⟨listing, hlisting, -⟩ := (h.books.sound hlevel o ho).onSteps
    rw [hunlisted] at hlisting
    cases hlisting

/-! ## The windows follow the books -/

/-- The window of a symbol that has one ends with the mid of the symbol's book. -/
def EndsAtMid (s : MatcherState) (symbol : String) : Prop :=
  ∀ w, s.mids.get? symbol = some w →
    ∃ moment, w.samples.getLast? = some (moment, s.midCents symbol)

def MidsFollow (s : MatcherState) : Prop := ∀ symbol, s.EndsAtMid symbol

theorem EndsAtMid.congr {s t : MatcherState} {symbol : String} (h : s.EndsAtMid symbol)
    (hmids : t.mids.get? symbol = s.mids.get? symbol)
    (hbooks : t.books.get? symbol = s.books.get? symbol) : t.EndsAtMid symbol := by
  intro w hw
  rw [midCents_congr hbooks]
  exact h w (hmids ▸ hw)

theorem MidsFollow.congr {s t : MatcherState} (h : s.MidsFollow) (hmids : t.mids = s.mids)
    (hbooks : t.books = s.books) : t.MidsFollow :=
  fun symbol => (h symbol).congr (by rw [hmids]) (by rw [hbooks])

/-- A change to one symbol's book, and the sample taken after it. -/
theorem MidsFollow.observeMid {s changed : MatcherState} (h : s.MidsFollow) {symbol : String}
    (atMs : Nat) (hbooks : ∀ q, q ≠ symbol → changed.books.get? q = s.books.get? q)
    (hmids : changed.mids = s.mids) :
    (changed.observeMid symbol atMs).MidsFollow := by
  intro q
  by_cases hq : q = symbol
  · subst hq
    intro w hw
    replace hw : SortedMap.get? (MidWindow.observe changed.mids q atMs (changed.midCents q)) q =
        some w := hw
    rw [MidWindow.observe, SortedMap.get?_insert_self] at hw
    cases hw
    exact SymbolWindow.getLast?_observe _ _ _
  · refine (h q).congr ?_ (hbooks q hq)
    change SortedMap.get? (MidWindow.observe changed.mids symbol atMs
      (changed.midCents symbol)) q = _
    rw [MidWindow.observe, SortedMap.get?_insert_of_ne _ hq, hmids]

theorem get?_pruneBook_of_ne (s : MatcherState) {symbol q : String} (hq : q ≠ symbol) :
    (s.pruneBook symbol).books.get? q = s.books.get? q := by
  unfold pruneBook
  dsimp only
  split_ifs
  · exact SortedMap.get?_erase_of_ne _ hq
  · rfl

/-- What one message does to the windows, before it is counted as consumed. -/
theorem MidsFollow.dispatch {env : Primitives} {s t : MatcherState} (h : s.MidsFollow)
    (hs : s.WellFormed) {message : OrderMessage}
    (hdispatch : dispatch env s message = .ok t) : t.MidsFollow := by
  cases dispatch_cases hs.noEmptyLevel hdispatch with
  | refused => exact h.congr rfl rfl
  | refusedOnBook m why =>
      -- The book that was opened for the order is dropped again.
      have hsame : s.refusedOnBook m.symbol why = s.ignoreOrder why :=
        congrArg (fun u => ignoreOrder u why) (withBookAndTrades_pruneBook hs.noEmptyBook m.symbol)
      rw [hsame]
      exact h.congr rfl rfl
  | matched m order left after _ _ _ hfinished =>
      cases hfinished with
      | overflowed _ ledger => exact h.observeMid _ (books_of_match s _ _).2 rfl
      | filled => exact h.observeMid _ (books_of_match s _ _).2 rfl
      | rested => exact h.observeMid _ (books_of_match s _ _).2 rfl
      | cancelled => exact h.observeMid _ (books_of_match s _ _).2 rfl
  | cancelIgnored => exact h.congr rfl rfl
  | cancelRejected => exact h.congr rfl rfl
  | cancelled m ref ledger _ book =>
      have hbooks : ∀ q, q ≠ ref.symbol → SortedMap.get?
          (MatcherState.pruneBook { s with
            ledger := ledger
            openOrders := s.openOrders.erase m.targetId
            books := s.books.insert ref.symbol (withoutOrder book ref m.targetId) }
            ref.symbol).books q = s.books.get? q := by
        intro q hq
        rw [get?_pruneBook_of_ne _ hq]
        exact SortedMap.get?_insert_of_ne _ hq _
      exact (h.observeMid m.timestamp hbooks rfl).congr rfl rfl
  | ignored => exact h.congr rfl rfl
  | listed => exact h.congr rfl rfl
  | delisted m key count _ listing cleared _ hcleared =>
      have hcleared : cleared.mids = s.mids ∧
          ∀ q, q ≠ m.symbol → cleared.books.get? q = s.books.get? q := by
        rcases clearBook_eq_ok hcleared with ⟨-, rfl⟩ | ⟨book, ledger, -, -, rfl⟩
        · exact ⟨rfl, fun _ _ => rfl⟩
        · exact ⟨rfl, fun q hq => SortedMap.get?_erase_of_ne _ hq⟩
      exact MidsFollow.congr (h.observeMid m.timestamp hcleared.2 hcleared.1) rfl rfl
  | ruled => exact h.congr rfl rfl

theorem MidsFollow.apply {env : Primitives} {s s' : MatcherState} (h : s.MidsFollow)
    (hs : s.WellFormed) {message : OrderMessage} {received : Option Bytes}
    (happly : s.apply env message received = .ok s') : s'.MidsFollow := by
  obtain ⟨-, t, hdispatch, hconsume⟩ := apply_eq_ok happly
  obtain ⟨-, -, -, -, -, hbooks, -, -, -, hmids⟩ := consume_eq_ok hconsume
  exact (h.dispatch hs hdispatch).congr hmids hbooks

theorem Reachable.midsFollow {env : Primitives} {s : MatcherState} (hs : Reachable env s) :
    s.MidsFollow := by
  induction hs with
  | genesis h =>
      obtain ⟨ledger, -, -, rfl⟩ := ExecutionGenesis.opening_eq_ok h
      exact fun symbol w hw => nomatch hw
  | applied hs happly ih => exact ih.apply (Reachable.wellFormed hs) happly

/-- In every state a run reaches, a symbol's newest sample is the mid of its book as it stands: from
that sample on the window shows no other, and none where a side is empty or the market is closed. -/
theorem newest_sample_is_mid {env : Primitives} {s : MatcherState} (hs : Reachable env s)
    {symbol : String} {w : SymbolWindow} (hw : s.mids.get? symbol = some w) :
    ∃ atMs, w.samples.getLast? = some (atMs, s.midCents symbol) ∧
      (∀ moment, atMs ≤ moment → shownAt w.samples moment = s.midCents symbol) ∧
      (s.bestBidCents symbol = none ∨ s.bestAskCents symbol = none ∨
        SymbolRegistry.listing s.symbols symbol = none → s.midCents symbol = none) := by
  obtain ⟨atMs, hnewest⟩ := hs.midsFollow symbol w hw
  refine ⟨atMs, hnewest, ?_, ?_⟩
  · intro moment hmoment
    exact shownAt_newest hnewest hmoment
  · rintro (hbid | hask | hunlisted)
    · rw [midCents, hbid, Option.bind_none]
    · rw [midCents, hask]
      cases s.bestBidCents symbol <;> rfl
    · exact hs.wellFormed.midCents_of_unlisted hunlisted

theorem Sample.state_mid :
    (Sample.state.mids.get? "ETH-USDC").isSome = true ∧
      Sample.state.midCents "ETH-USDC" = some 10000 := by
  decide +kernel

/-- After the short log the window ends with the mid of its two orders. -/
theorem newest_sample_is_mid_sample :
    ∃ w atMs, Sample.state.mids.get? "ETH-USDC" = some w ∧
      w.samples.getLast? = some (atMs, some 10000) := by
  obtain ⟨w, hw⟩ := Option.isSome_iff_exists.1 Sample.state_mid.1
  obtain ⟨atMs, hnewest, -⟩ := newest_sample_is_mid Sample.reachable_state hw
  rw [Sample.state_mid.2] at hnewest
  exact ⟨w, atMs, hw, hnewest⟩

end MatcherState

end Matcher
end VerifiableExchange

import VerifiableExchange.Matcher.Whole

/-!
# Capacity — the positions a walk counts

The position limit is checked on a walk of the book before the match. The walk meets the makers of
the order's plan, so what it counts are the accounts the plan opens a position for; the fills of a
match are the start of the plan, and open those of its own parties.
-/

namespace VerifiableExchange
namespace Matcher

open Lib

/-! ## Counting accounts -/

/-- The accounts that trade in these fills. -/
def parties (order : IncomingOrder) (fills : List PlannedFill) : Finset AccountId :=
  (fills.flatMap (fun fill => [order.account, fill.makerAccount])).toFinset

/-- Of these accounts, the ones without a position in the order's symbol. -/
def without (order : IncomingOrder) (positions : SortedMap AccountKey Position)
    (accounts : Finset AccountId) : Finset AccountId :=
  accounts.filter
    (fun account => positions.contains (Ledger.accountKey account order.symbol) = false)

/-- The accounts these fills open a position for. -/
def openedBy (order : IncomingOrder) (positions : SortedMap AccountKey Position)
    (fills : List PlannedFill) : Finset AccountId :=
  without order positions (parties order fills)

@[simp] theorem parties_nil (order : IncomingOrder) : parties order [] = ∅ := rfl

theorem parties_cons (order : IncomingOrder) (fill : PlannedFill) (rest : List PlannedFill) :
    parties order (fill :: rest) = insert order.account (insert fill.makerAccount
      (parties order rest)) := by
  simp [parties]

theorem parties_append (order : IncomingOrder) (front back : List PlannedFill) :
    parties order (front ++ back) = parties order front ∪ parties order back := by
  simp [parties, List.toFinset_append]

theorem mem_without {order : IncomingOrder} {positions : SortedMap AccountKey Position}
    {accounts : Finset AccountId} {account : AccountId} :
    account ∈ without order positions accounts ↔ account ∈ accounts ∧
      positions.contains (Ledger.accountKey account order.symbol) = false :=
  Finset.mem_filter

theorem without_mono {order : IncomingOrder} {positions : SortedMap AccountKey Position}
    {fewer more : Finset AccountId} (h : fewer ⊆ more) :
    without order positions fewer ⊆ without order positions more :=
  Finset.filter_subset_filter _ h

namespace ResourceLimits

/-- The count the position limit is checked on. -/
def countPositions (limits : ResourceLimits) (order : IncomingOrder) (book : Book)
    (positions : SortedMap AccountKey Position) : Except Rejected Opening :=
  ((crossing book order.side order.limitCents).flatMap (fun entry => entry.2)).foldlM
    (limits.countMaker order positions) ⟨[], order.qtyTenths⟩

theorem checkPositions_eq_ok {limits : ResourceLimits} {order : IncomingOrder} {book : Book}
    {positions : SortedMap AccountKey Position} {u : Unit} :
    limits.checkPositions order book positions = .ok u ↔
      ∃ opening, limits.countPositions order book positions = .ok opening := by
  simp only [checkPositions, countPositions, bind_eq_ok]
  exact ⟨fun ⟨opening, h, _⟩ => ⟨opening, h⟩, fun ⟨opening, h⟩ => ⟨opening, h, rfl⟩⟩

theorem checkPositions_eq_error {limits : ResourceLimits} {order : IncomingOrder} {book : Book}
    {positions : SortedMap AccountKey Position} {why : Rejected} :
    limits.checkPositions order book positions = .error why ↔
      limits.countPositions order book positions = .error why := by
  simp only [checkPositions, countPositions, bind_eq_error]
  exact ⟨fun h => h.resolve_right (fun ⟨_, _, hdone⟩ => nomatch hdone), Or.inl⟩

variable {limits : ResourceLimits} {order : IncomingOrder}
  {positions : SortedMap AccountKey Position}

/-- What was counted so far are the new accounts among the ones met, and there is room for them. -/
structure Counting (limits : ResourceLimits) (order : IncomingOrder)
    (positions : SortedMap AccountKey Position) (met : Finset AccountId)
    (added : List AccountId) : Prop where
  nodup : added.Nodup
  toFinset_eq : added.toFinset = without order positions met
  room : positions.size + added.length ≤ limits.maxPositions

theorem Counting.card_eq {met : Finset AccountId} {added : List AccountId}
    (h : Counting limits order positions met added) :
    (without order positions met).card = added.length := by
  rw [← h.toFinset_eq, List.toFinset_card_of_nodup h.nodup]

/-- One more account, within the limit or past it. -/
theorem Counting.countAccount {met : Finset AccountId} {added : List AccountId}
    (h : Counting limits order positions met added) (account : AccountId) :
    (∃ added', limits.countAccount order positions added account = .ok added' ∧
        Counting limits order positions (insert account met) added') ∨
      (limits.countAccount order positions added account = .error ⟨"position_capacity"⟩ ∧
        limits.maxPositions < positions.size +
          (without order positions (insert account met)).card) := by
  unfold ResourceLimits.countAccount
  by_cases hheld : positions.contains (Ledger.accountKey account order.symbol) = true
  · -- An account with a position is not counted.
    have hsame : without order positions (insert account met) = without order positions met := by
      rw [without, Finset.filter_insert, if_neg (by simp [hheld])]
      rfl
    refine Or.inl ⟨added, by rw [if_pos hheld], h.nodup, ?_, h.room⟩
    rw [hsame, h.toFinset_eq]
  · have hnew : without order positions (insert account met) =
        insert account (without order positions met) := by
      rw [without, Finset.filter_insert, if_pos (by simpa using hheld)]
      rfl
    rw [if_neg hheld]
    dsimp only
    have hadded : ∀ added', added' = (if account ∈ added then added else account :: added) →
        added'.Nodup ∧ added'.toFinset = without order positions (insert account met) := by
      rintro added' rfl
      split_ifs with hmem
      · refine ⟨h.nodup, ?_⟩
        rw [hnew, ← h.toFinset_eq, Finset.insert_eq_of_mem (List.mem_toFinset.2 hmem)]
      · refine ⟨h.nodup.cons hmem, ?_⟩
        rw [hnew, ← h.toFinset_eq, List.toFinset_cons]
    generalize hnext : (if account ∈ added then added else account :: added) = next
    obtain ⟨hnodup, hset⟩ := hadded next hnext.symm
    split_ifs with hfull
    · refine Or.inr ⟨rfl, ?_⟩
      rw [← hset, List.toFinset_card_of_nodup hnodup]
      exact hfull
    · exact Or.inl ⟨_, rfl, hnodup, hset, not_lt.1 hfull⟩

/-- Both accounts of one more fill, within the limit or past it. -/
theorem Counting.countMaker {met : Finset AccountId} {opening : Opening}
    (h : Counting limits order positions met opening.added) (hwanted : opening.remaining ≠ 0)
    (maker : RestingOrder) :
    (∃ opening', limits.countMaker order positions opening maker = .ok opening' ∧
        opening'.remaining = opening.remaining - min opening.remaining maker.qtyTenths ∧
        Counting limits order positions (insert order.account (insert maker.account met))
          opening'.added) ∨
      (limits.countMaker order positions opening maker = .error ⟨"position_capacity"⟩ ∧
        limits.maxPositions < positions.size +
          (without order positions (insert order.account (insert maker.account met))).card) := by
  rw [Finset.insert_comm]
  rcases h.countAccount order.account with ⟨first, hfirst, hcounting⟩ | ⟨hfirst, hfull⟩
  · rcases hcounting.countAccount maker.account with ⟨both, hboth, hcounting⟩ | ⟨hboth, hfull⟩
    · refine Or.inl ⟨⟨both, _⟩, ?_, rfl, hcounting⟩
      rw [ResourceLimits.countMaker, if_neg hwanted, hfirst]
      simp only [bind, Except.bind, hboth]
      rfl
    · refine Or.inr ⟨?_, hfull⟩
      rw [ResourceLimits.countMaker, if_neg hwanted, hfirst]
      simp only [bind, Except.bind, hboth]
  · refine Or.inr ⟨?_, ?_⟩
    · rw [ResourceLimits.countMaker, if_neg hwanted, hfirst]
      rfl
    · refine lt_of_lt_of_le hfull (Nat.add_le_add_left (Finset.card_le_card (without_mono ?_)) _)
      exact Finset.subset_insert _ _

theorem countMaker_of_done {opening : Opening} (h : opening.remaining = 0) (maker : RestingOrder) :
    limits.countMaker order positions opening maker = .ok opening := if_pos h

/-- The makers of a queue are counted as far as the walk of it goes. -/
theorem Counting.walk :
    ∀ {queue : List Waiting} {met : Finset AccountId} {opening : Opening},
      Counting limits order positions met opening.added → 0 ≤ opening.remaining →
      (∀ w ∈ queue, 0 < w.size) →
      (∃ opening', (queue.map Prod.snd).foldlM (limits.countMaker order positions) opening =
            .ok opening' ∧
          Counting limits order positions (met ∪ parties order
            (plannedOf (Greedy.fills Waiting.size opening.remaining queue))) opening'.added) ∨
        ((queue.map Prod.snd).foldlM (limits.countMaker order positions) opening =
            .error ⟨"position_capacity"⟩ ∧
          limits.maxPositions < positions.size + (without order positions (met ∪ parties order
            (plannedOf (Greedy.fills Waiting.size opening.remaining queue)))).card)
  | [], met, opening, h, _, _ => by
      refine Or.inl ⟨opening, rfl, ?_⟩
      simpa [Greedy.fills, plannedOf] using h
  | w :: rest, met, opening, h, hremaining, hpos => by
      have hsize : 0 < w.2.qtyTenths := hpos w List.mem_cons_self
      have hrest : ∀ v ∈ rest, 0 < v.size := fun v hv => hpos v (List.mem_cons_of_mem _ hv)
      rcases eq_or_lt_of_le hremaining with hdone | hwanted
      · -- The order has its quantity, so nobody else is counted.
        rw [List.map_cons, List.foldlM_cons, countMaker_of_done hdone.symm]
        have hnone := Counting.walk h hremaining hrest
        rw [Greedy.fills_of_nonpos hdone.symm.le] at hnone ⊢
        exact hnone
      · have hparties : met ∪ parties order (plannedOf
              (Greedy.fills Waiting.size opening.remaining (w :: rest))) =
            insert order.account (insert w.2.account met) ∪ parties order (plannedOf
              (Greedy.fills Waiting.size
                (opening.remaining - min opening.remaining w.2.qtyTenths) rest)) := by
          rw [Greedy.fills_cons w rest hwanted]
          simp only [plannedOf, List.map_cons, parties_cons, Finset.union_insert,
            Finset.insert_union]
          rfl
        rw [hparties, List.map_cons, List.foldlM_cons]
        rcases h.countMaker hwanted.ne' w.2 with ⟨next, hnext, hleft, hcounting⟩ | ⟨hnext, hfull⟩
        · rw [hnext, ← hleft]
          exact Counting.walk hcounting (by omega) hrest
        · refine Or.inr ⟨by rw [hnext]; rfl, lt_of_lt_of_le hfull ?_⟩
          exact Nat.add_le_add_left
            (Finset.card_le_card (without_mono Finset.subset_union_left)) _

end ResourceLimits

/-- The makers an order can reach are those of its queue. -/
theorem crossing_flatMap (book : Book) (side : Side) (limitCents : Int) :
    (crossing book side limitCents).flatMap (fun entry => entry.2) =
      (queue book side limitCents).map Prod.snd := by
  unfold crossing queue waiting
  induction facing book side with
  | nil => rfl
  | cons entry rest ih =>
      have hlevel : ((atPrice entry).filter (fun w => crosses side w.1 limitCents)) =
          if crosses side entry.1 limitCents then atPrice entry else [] := by
        split_ifs with hcross
        · refine List.filter_eq_self.2 ?_
          rintro w hw
          obtain ⟨o, -, rfl⟩ := List.mem_map.1 hw
          simpa using hcross
        · refine List.filter_eq_nil_iff.2 ?_
          rintro w hw
          obtain ⟨o, -, rfl⟩ := List.mem_map.1 hw
          simpa using hcross
      have horders : (atPrice entry).map Prod.snd = entry.2 := by
        simp [atPrice, Function.comp_def]
      rw [List.flatMap_cons, List.filter_append, List.map_append, ← ih, hlevel]
      by_cases hcross : crosses side entry.1 limitCents
      · rw [List.filter_cons_of_pos (by simpa using hcross), List.flatMap_cons, if_pos hcross,
          horders]
      · rw [List.filter_cons_of_neg (by simpa using hcross), if_neg hcross, List.map_nil,
          List.nil_append]

/-- The position limit is checked on exactly the positions the plan opens. -/
theorem ResourceLimits.countPositions_cases {limits : ResourceLimits} {order : IncomingOrder}
    {book : Book} {positions : SortedMap AccountKey Position}
    (hroom : positions.size ≤ limits.maxPositions) (hqty : 0 ≤ order.qtyTenths)
    (hpos : ∀ w ∈ waiting book order.side, 0 < w.size) :
    (∃ opening, limits.countPositions order book positions = .ok opening ∧
        opening.added.toFinset = openedBy order positions (planFills order book) ∧
        positions.size + (openedBy order positions (planFills order book)).card ≤
          limits.maxPositions) ∨
      (limits.countPositions order book positions = .error ⟨"position_capacity"⟩ ∧
        limits.maxPositions <
          positions.size + (openedBy order positions (planFills order book)).card) := by
  have hstart : limits.Counting order positions ∅ [] :=
    ⟨List.nodup_nil, rfl, by simpa using hroom⟩
  have hqueue : ∀ w ∈ queue book order.side order.limitCents, 0 < w.size :=
    fun w hw => hpos w (List.mem_filter.1 hw).1
  have hwalk := @Counting.walk limits order positions _ ∅ ⟨[], order.qtyTenths⟩ hstart hqty hqueue
  rw [Finset.empty_union] at hwalk
  rw [countPositions, crossing_flatMap, planFills_eq hqty hpos]
  rcases hwalk with ⟨opening, hcount, hcounting⟩ | hfull
  · refine Or.inl ⟨opening, hcount, hcounting.toFinset_eq, ?_⟩
    have hcard : (openedBy order positions (plannedOf (walkOf order book))).card =
        opening.added.length := hcounting.card_eq
    rw [hcard]
    exact hcounting.room
  · exact Or.inr hfull

/-! ## What a match opens -/

theorem contains_positionsAfter_iff {positions : SortedMap AccountKey Position}
    {order : IncomingOrder} {fill : PlannedFill} {makerNext takerNext : Position}
    {key : AccountKey} :
    (positionsAfter positions order fill makerNext takerNext).contains key = true ↔
      positions.contains key = true ∨ key = Ledger.accountKey order.account order.symbol ∨
        key = Ledger.accountKey fill.makerAccount order.symbol := by
  unfold positionsAfter
  dsimp only
  split_ifs with hself
  · simp only [SortedMap.contains_insert_iff]
    tauto
  · have hsame : fill.makerAccount = order.account := not_not.1 hself
    simp only [SortedMap.contains_insert_iff, hsame]
    tauto

/-- The keys of these accounts in the order's symbol. -/
def keysOf (order : IncomingOrder) (accounts : Finset AccountId) : Finset AccountKey :=
  accounts.image (fun account => Ledger.accountKey account order.symbol)

theorem mem_keysOf {order : IncomingOrder} {accounts : Finset AccountId} {key : AccountKey} :
    key ∈ keysOf order accounts ↔
      ∃ account ∈ accounts, Ledger.accountKey account order.symbol = key :=
  Finset.mem_image

/-- A match makes the start of the walk, and its fills are all that opens positions. -/
theorem Fills.opened {order : IncomingOrder} {remaining left : Int} {before after : BookAndTrades}
    (h : Fills order remaining before left after)
    (hpos : ∀ w ∈ waiting before.book order.side, 0 < w.size) :
    ∃ made, Greedy.fills Waiting.size remaining (queue before.book order.side order.limitCents) =
        made ++ Greedy.fills Waiting.size left (queue after.book order.side order.limitCents) ∧
      ∀ key, after.positions.contains key = true ↔ before.positions.contains key = true ∨
        key ∈ keysOf order (parties order (plannedOf made)) := by
  induction h with
  | done remaining into =>
      refine ⟨[], rfl, fun key => ?_⟩
      simp [plannedOf, keysOf]
  | @step remaining left before after e enabled _ ih =>
      obtain ⟨hmaker, hpos'⟩ := enabled.size_pos hpos
      obtain ⟨made, hmade, hkeys⟩ := ih hpos'
      obtain ⟨hwalk, -⟩ := enabled.greedy hmaker
      refine ⟨((e.price, e.maker), e.qty remaining) :: made, ?_, fun key => ?_⟩
      · rw [hwalk, hmade, List.cons_append]
      · rw [hkeys key]
        have hfill : (e.result order remaining before).positions.contains key = true ↔ _ :=
          contains_positionsAfter_iff
        rw [hfill]
        simp only [plannedOf, List.map_cons, parties_cons, keysOf, Finset.image_insert,
          Finset.mem_insert]
        tauto

/-- The keys a match adds are those of the accounts its fills open a position for. -/
theorem keys_sdiff {order : IncomingOrder} {before after : SortedMap AccountKey Position}
    {fills : List PlannedFill}
    (h : ∀ key, after.contains key = true ↔ before.contains key = true ∨
      key ∈ keysOf order (parties order fills)) :
    after.keys \ before.keys = keysOf order (openedBy order before fills) := by
  ext key
  rw [Finset.mem_sdiff, SortedMap.mem_keys, SortedMap.mem_keys, h key, mem_keysOf, mem_keysOf]
  constructor
  · rintro ⟨hheld | ⟨account, haccount, rfl⟩, hnew⟩
    · exact absurd hheld hnew
    · exact ⟨account, mem_without.2 ⟨haccount, by simpa using hnew⟩, rfl⟩
  · rintro ⟨account, haccount, rfl⟩
    obtain ⟨hparty, hnew⟩ := mem_without.1 haccount
    exact ⟨Or.inr ⟨account, hparty, rfl⟩, by simp [hnew]⟩

theorem keysOf_mono {order : IncomingOrder} {fewer more : Finset AccountId} (h : fewer ⊆ more) :
    keysOf order fewer ⊆ keysOf order more := Finset.image_subset_image h

end Matcher
end VerifiableExchange

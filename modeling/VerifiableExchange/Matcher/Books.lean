import VerifiableExchange.Matcher.Outcome

/-!
# Books — the representation invariant of the books and their index

`BookInv` says that the index and the books name the same orders, that every level is a nonempty
queue in arrival order, that every order fits its listing, and that no book is crossed. Every change
the engine makes to its books is the replacement of one level, so the invariant is proved once, for
`LevelEdit`.
-/

namespace VerifiableExchange
namespace Matcher

open Lib

/-! ## Levels by place -/

/-- The level at one price of one side of a symbol's book. -/
def levelAt (books : Books) (symbol : String) (side : Side) (price : Int) : Option Level :=
  (books.get? symbol).bind (fun book => (book.levels side).get? price)

theorem levelAt_eq_some {books : Books} {symbol : String} {side : Side} {price : Int}
    {level : Level} :
    levelAt books symbol side price = some level ↔
      ∃ book, books.get? symbol = some book ∧ (book.levels side).get? price = some level :=
  Option.bind_eq_some_iff

/-- The level at a price, as the book with an empty default reads it. -/
theorem levelAt_getD (books : Books) (symbol : String) (side : Side) (price : Int) :
    levelAt books symbol side price =
      ((books.getD symbol .default).levels side).get? price := by
  unfold levelAt SortedMap.getD
  cases books.get? symbol <;> simp

/-- Arrival ids strictly increase from front to back. -/
def Increasing (level : Level) : Prop := level.Pairwise (fun a b => a.id < b.id)

/-- One level is replaced, and every other one stays. -/
structure LevelEdit (books books' : Books) (ref : OrderRef) (old new : Level) : Prop where
  before : (levelAt books ref.symbol ref.side ref.priceCents).getD [] = old
  here : levelAt books' ref.symbol ref.side ref.priceCents = if new = [] then none else some new
  elsewhere : ∀ symbol side price, ¬(symbol = ref.symbol ∧ side = ref.side ∧ price = ref.priceCents) →
    levelAt books' symbol side price = levelAt books symbol side price

/-- Putting a level into a symbol's book replaces that one level. -/
theorem levelEdit_of_put {books books' : Books} {book : Book} (ref : OrderRef) (new : Level)
    (hbook : books.getD ref.symbol .default = book)
    (hhere : books'.get? ref.symbol = some (book.setLevels ref.side
      (Levels.put (book.levels ref.side) ref.priceCents new)))
    (helse : ∀ symbol, symbol ≠ ref.symbol → books'.get? symbol = books.get? symbol) :
    LevelEdit books books' ref (((book.levels ref.side).get? ref.priceCents).getD []) new where
  before := by rw [levelAt_getD, hbook]
  here := by simp [levelAt, hhere, Levels.get?_put]
  elsewhere := by
    intro symbol side price hplace
    by_cases hsymbol : symbol = ref.symbol
    · subst hsymbol
      rw [levelAt_getD books, hbook]
      simp only [levelAt, hhere, Option.bind_some]
      by_cases hside : side = ref.side
      · subst hside
        have hprice : price ≠ ref.priceCents := fun h => hplace ⟨rfl, rfl, h⟩
        simp [Levels.get?_put, hprice]
      · rw [Book.levels_setLevels_of_ne _ hside]
    · simp only [levelAt, helse symbol hsymbol]

theorem Levels.pushBack_eq_put (levels : Levels) (price : Int) (order : RestingOrder) :
    Levels.pushBack levels price order =
      Levels.put levels price ((levels.get? price).getD [] ++ [order]) := by
  simp [Levels.pushBack, Levels.put, SortedMap.getD]

/-- The order `o` waits where `ref` says. -/
def Rests (books : Books) (ref : OrderRef) (o : RestingOrder) : Prop :=
  ∃ level, levelAt books ref.symbol ref.side ref.priceCents = some level ∧ o ∈ level

theorem LevelEdit.mem_old {books books' : Books} {ref : OrderRef} {old new : Level}
    (h : LevelEdit books books' ref old new) {o : RestingOrder} : o ∈ old ↔ Rests books ref o := by
  rw [← h.before]
  unfold Rests
  cases levelAt books ref.symbol ref.side ref.priceCents <;> simp

theorem LevelEdit.rests_here {books books' : Books} {ref : OrderRef} {old new : Level}
    (h : LevelEdit books books' ref old new) {o : RestingOrder} :
    Rests books' ref o ↔ o ∈ new := by
  unfold Rests
  rw [h.here]
  by_cases hnew : new = []
  · simp [hnew]
  · simp [hnew]

theorem LevelEdit.rests_elsewhere {books books' : Books} {ref other : OrderRef} {old new : Level}
    (h : LevelEdit books books' ref old new) (hother : other ≠ ref) {o : RestingOrder} :
    Rests books' other o ↔ Rests books other o := by
  have hplace : ¬(other.symbol = ref.symbol ∧ other.side = ref.side ∧
      other.priceCents = ref.priceCents) := by
    rintro ⟨hsymbol, hside, hprice⟩
    cases other
    cases ref
    simp_all
  unfold Rests
  rw [h.elsewhere _ _ _ hplace]

theorem rests_congr {books books' : Books}
    (h : ∀ symbol side price, levelAt books' symbol side price = levelAt books symbol side price)
    {ref : OrderRef} {o : RestingOrder} : Rests books' ref o ↔ Rests books ref o := by
  unfold Rests
  rw [h]

/-! ## The invariant -/

/-- An order that may rest where it does. -/
structure Sound (symbols : SymbolRegistry) (last : OrderId) (symbol : String) (price : Int)
    (o : RestingOrder) : Prop where
  past : o.id ≤ last
  qty_pos : 0 < o.qtyTenths
  qty_le : o.qtyTenths ≤ maxGridUnits
  price_pos : 0 < price
  price_le : price ≤ maxGridUnits
  onSteps : ∃ listing, SymbolRegistry.listing symbols symbol = some listing ∧
    listing.priceStepCents ∣ price ∧ listing.quantityStepTenths ∣ o.qtyTenths

/-- The books and the index into them fit together. -/
structure BookInv (symbols : SymbolRegistry) (last : OrderId) (books : Books)
    (openOrders : SortedMap OrderId OrderRef) : Prop where
  level_ne : ∀ {symbol side price level}, levelAt books symbol side price = some level →
    level ≠ []
  increasing : ∀ {symbol side price level}, levelAt books symbol side price = some level →
    Increasing level
  sound : ∀ {symbol side price level}, levelAt books symbol side price = some level →
    ∀ o ∈ level, Sound symbols last symbol price o
  indexed : ∀ id ref, openOrders.get? id = some ref ↔
    ∃ level, levelAt books ref.symbol ref.side ref.priceCents = some level ∧
      ∃ o ∈ level, o.id = id
  uncrossed : ∀ {symbol bid ask bids asks}, levelAt books symbol .buy bid = some bids →
    levelAt books symbol .sell ask = some asks → bid < ask

/-- No symbol keeps a book without an order in it. -/
def NoEmptyBook (books : Books) : Prop := ∀ symbol book, books.get? symbol = some book →
  book.isEmpty = false

namespace BookInv

variable {symbols : SymbolRegistry} {last : OrderId} {books books' : Books}
  {openOrders openOrders' : SortedMap OrderId OrderRef}

theorem empty : BookInv symbols last .empty .empty where
  level_ne := by simp [levelAt]
  increasing := by simp [levelAt]
  sound := by simp [levelAt]
  indexed := by simp [levelAt]
  uncrossed := by simp [levelAt]

/-- Only the levels of the books matter. -/
theorem congr_levels (h : BookInv symbols last books openOrders)
    (hlevels : ∀ symbol side price, levelAt books' symbol side price =
      levelAt books symbol side price) : BookInv symbols last books' openOrders where
  level_ne := by
    intro symbol side price level hlevel
    exact h.level_ne ((hlevels symbol side price).symm.trans hlevel)
  increasing := by
    intro symbol side price level hlevel
    exact h.increasing ((hlevels symbol side price).symm.trans hlevel)
  sound := by
    intro symbol side price level hlevel
    exact h.sound ((hlevels symbol side price).symm.trans hlevel)
  indexed := by
    intro id ref
    rw [hlevels]
    exact h.indexed id ref
  uncrossed := by
    intro symbol bid ask bids asks hbid hask
    exact h.uncrossed ((hlevels symbol .buy bid).symm.trans hbid)
      ((hlevels symbol .sell ask).symm.trans hask)

/-- A later cursor and a registry that still lists every resting order's symbol. -/
theorem mono {symbols' : SymbolRegistry} {last' : OrderId}
    (h : BookInv symbols last books openOrders) (hlast : last ≤ last')
    (hsymbols : ∀ symbol listing, SymbolRegistry.listing symbols symbol = some listing →
      (∃ side price level, levelAt books symbol side price = some level) →
      SymbolRegistry.listing symbols' symbol = some listing) :
    BookInv symbols' last' books openOrders where
  level_ne := h.level_ne
  increasing := h.increasing
  sound := by
    intro symbol side price level hlevel o ho
    have hsound := h.sound hlevel o ho
    obtain ⟨listing, hlisting, hsteps⟩ := hsound.onSteps
    exact { hsound with
      past := hsound.past.trans hlast
      onSteps := ⟨listing, hsymbols _ _ hlisting ⟨side, price, level, hlevel⟩, hsteps⟩ }
  indexed := h.indexed
  uncrossed := h.uncrossed

/-- An indexed order is in the level its entry names. -/
theorem exists_of_indexed (h : BookInv symbols last books openOrders) {id : OrderId} {ref : OrderRef}
    (hid : openOrders.get? id = some ref) :
    ∃ level, levelAt books ref.symbol ref.side ref.priceCents = some level ∧
      ∃ o ∈ level, o.id = id :=
  (h.indexed id ref).1 hid

/-- An order that rests in a level is indexed there. -/
theorem get?_of_mem (h : BookInv symbols last books openOrders) {ref : OrderRef} {level : Level}
    (hlevel : levelAt books ref.symbol ref.side ref.priceCents = some level) {o : RestingOrder}
    (ho : o ∈ level) : openOrders.get? o.id = some ref :=
  (h.indexed o.id ref).2 ⟨level, hlevel, o, ho, rfl⟩

/-- An id past the cursor names no open order. -/
theorem get?_of_lt (h : BookInv symbols last books openOrders) {id : OrderId} (hid : last < id) :
    openOrders.get? id = none := by
  cases hget : openOrders.get? id with
  | none => rfl
  | some ref =>
      obtain ⟨level, hlevel, o, ho, rfl⟩ := h.exists_of_indexed hget
      exact absurd (h.sound hlevel o ho).past (not_le.2 hid)

theorem noEmptyLevel (h : BookInv symbols last books openOrders) (symbol : String) (side : Side) :
    NoEmptyLevel (facing (books.getD symbol .default) side) := by
  rintro ⟨price, level⟩ hentry
  have hlevel := mem_facing.1 hentry
  exact h.level_ne ((levelAt_getD books symbol side.opposite price).trans hlevel)

/-- Replacing one level by another, with the index following, keeps the invariant. -/
theorem edit {ref : OrderRef} {old new : Level} (h : BookInv symbols last books openOrders)
    (hedit : LevelEdit books books' ref old new) (hincreasing : Increasing new)
    (hsound : ∀ o ∈ new, Sound symbols last ref.symbol ref.priceCents o)
    (hindex : ∀ id, openOrders'.get? id =
      if id ∈ new.map RestingOrder.id then some ref
      else if id ∈ old.map RestingOrder.id then none else openOrders.get? id)
    (hfresh : ∀ id ∈ new.map RestingOrder.id, id ∈ old.map RestingOrder.id ∨
      openOrders.get? id = none)
    (huncrossed : new ≠ [] → ∀ price level,
      levelAt books ref.symbol ref.side.opposite price = some level →
        ¬crosses ref.side price ref.priceCents) :
    BookInv symbols last books' openOrders' := by
  -- The index names exactly the orders of the old level at this place.
  have hold : ∀ id, id ∈ old.map RestingOrder.id ↔ openOrders.get? id = some ref := by
    intro id
    rw [h.indexed, ← hedit.before]
    cases levelAt books ref.symbol ref.side ref.priceCents <;> simp
  -- A level of the new books is the new level, or it was there before.
  have hcases : ∀ {symbol side price level}, levelAt books' symbol side price = some level →
      (level = new ∧ new ≠ [] ∧ symbol = ref.symbol ∧ side = ref.side ∧ price = ref.priceCents) ∨
        (levelAt books symbol side price = some level ∧
          ¬(symbol = ref.symbol ∧ side = ref.side ∧ price = ref.priceCents)) := by
    intro symbol side price level hlevel
    by_cases hplace : symbol = ref.symbol ∧ side = ref.side ∧ price = ref.priceCents
    · obtain ⟨rfl, rfl, rfl⟩ := hplace
      rw [hedit.here] at hlevel
      split_ifs at hlevel with hempty
      cases hlevel
      exact Or.inl ⟨rfl, hempty, rfl, rfl, rfl⟩
    · rw [hedit.elsewhere symbol side price hplace] at hlevel
      exact Or.inr ⟨hlevel, hplace⟩
  constructor
  case level_ne =>
    intro symbol side price level hlevel
    rcases hcases hlevel with ⟨rfl, hne, -⟩ | ⟨hlevel, -⟩
    · exact hne
    · exact h.level_ne hlevel
  case increasing =>
    intro symbol side price level hlevel
    rcases hcases hlevel with ⟨rfl, -⟩ | ⟨hlevel, -⟩
    · exact hincreasing
    · exact h.increasing hlevel
  case sound =>
    intro symbol side price level hlevel o ho
    rcases hcases hlevel with ⟨rfl, -, rfl, -, rfl⟩ | ⟨hlevel, -⟩
    · exact hsound o ho
    · exact h.sound hlevel o ho
  case indexed =>
    intro id other
    -- Ids of the new level point here, and ids only the old level had point nowhere.
    rw [hindex id]
    by_cases hplace : other.symbol = ref.symbol ∧ other.side = ref.side ∧
        other.priceCents = ref.priceCents
    · have hother : other = ref := by
        cases other
        cases ref
        simp_all
      subst hother
      rw [hedit.here]
      by_cases hnew : id ∈ new.map RestingOrder.id
      · have hne : new ≠ [] := by
          rintro rfl
          simp at hnew
        rw [if_pos hnew, if_neg hne]
        simpa using hnew
      · have hnotIn : ¬∃ o ∈ new, o.id = id := by simpa using hnew
        by_cases hempty : new = []
        · by_cases hin : id ∈ old.map RestingOrder.id
          · simp [hin, hempty]
          · simpa [hnew, hin, hempty] using fun hget => hin ((hold id).2 hget)
        · by_cases hin : id ∈ old.map RestingOrder.id
          · simpa [hnew, hin, hempty] using hnotIn
          · have hget : openOrders.get? id ≠ some other := fun hget => hin ((hold id).2 hget)
            simpa [hnew, hin, hempty, hget] using hnotIn
    · rw [hedit.elsewhere _ _ _ hplace, ← h.indexed]
      have hne : ref ≠ other := by
        rintro rfl
        exact hplace ⟨rfl, rfl, rfl⟩
      by_cases hin : id ∈ old.map RestingOrder.id
      · have hget := (hold id).1 hin
        by_cases hnew : id ∈ new.map RestingOrder.id
        · simp [hnew, hget, hne]
        · simp [hnew, hin, hget, hne]
      · by_cases hnew : id ∈ new.map RestingOrder.id
        · have hget := (hfresh id hnew).resolve_left hin
          simp [hnew, hget, hne]
        · simp [hnew, hin]
  case uncrossed =>
    intro symbol bid ask bids asks hbid hask
    -- Two levels that were there before do not cross; the new one is checked against the far side.
    rcases hcases hbid with ⟨rfl, hne, rfl, hside, rfl⟩ | ⟨hbid, -⟩
    · rcases hcases hask with ⟨-, -, -, hother, -⟩ | ⟨hask, -⟩
      · exact absurd (hside.trans hother.symm) (by decide)
      · have hcross := huncrossed hne ask asks (by rw [← hside]; exact hask)
        rw [← hside] at hcross
        exact not_le.1 hcross
    · rcases hcases hask with ⟨rfl, hne, rfl, hside, rfl⟩ | ⟨hask, -⟩
      · have hcross := huncrossed hne bid bids (by rw [← hside]; exact hbid)
        rw [← hside] at hcross
        exact not_le.1 hcross
      · exact h.uncrossed hbid hask

theorem get?_of_rests (h : BookInv symbols last books openOrders) {ref : OrderRef} {o : RestingOrder}
    (ho : Rests books ref o) : openOrders.get? o.id = some ref := by
  obtain ⟨level, hlevel, ho⟩ := ho
  exact h.get?_of_mem hlevel ho

/-- An id rests in one place, and once. -/
theorem rests_unique (h : BookInv symbols last books openOrders) {ref ref' : OrderRef}
    {o o' : RestingOrder} (ho : Rests books ref o) (ho' : Rests books ref' o') (hid : o.id = o'.id) :
    ref = ref' ∧ o = o' := by
  have href : ref = ref' := by
    have hget := h.get?_of_rests ho
    rw [hid, h.get?_of_rests ho'] at hget
    exact (Option.some.inj hget).symm
  subst href
  obtain ⟨level, hlevel, ho⟩ := ho
  obtain ⟨level', hlevel', ho'⟩ := ho'
  cases hlevel.symm.trans hlevel'
  refine ⟨rfl, ?_⟩
  by_contra hne
  rcases List.pairwise_iff_getElem.1 (h.increasing hlevel) with hlt
  obtain ⟨i, hi, rfl⟩ := List.getElem_of_mem ho
  obtain ⟨j, hj, rfl⟩ := List.getElem_of_mem ho'
  rcases lt_trichotomy i j with hij | hij | hij
  · exact absurd hid (ne_of_lt (hlt i j hi hj hij))
  · subst hij
    exact hne rfl
  · exact absurd hid (ne_of_gt (hlt j i hj hi hij))

theorem sound_of_rests (h : BookInv symbols last books openOrders) {ref : OrderRef}
    {o : RestingOrder} (ho : Rests books ref o) :
    Sound symbols last ref.symbol ref.priceCents o := by
  obtain ⟨level, hlevel, ho⟩ := ho
  exact h.sound hlevel o ho

end BookInv

end Matcher
end VerifiableExchange

import VerifiableExchange.Feed.Runs
import VerifiableExchange.Inbox.Grid

/-!
# Groups — the ids a group is given

Each of the four callers of `sequence` takes its ids from the state and touches nothing else that is
published. What each of them checks first covers the guard of `sequence`, but for one thing: a drain
pass does not see an entry twice in its own page.
-/

namespace VerifiableExchange
namespace Feed

open Lib Merkle Logchain Inbox Wire

/-! ## Taking ids -/

/-- Ids were taken for these messages, and nothing else that is published has moved. -/
structure TookIds (before after : FeedState) (batch : List Entry) : Prop where
  frame : after = { before with nextId := after.nextId }
  ids : batch.length + before.nextId < 18446744073709551616 →
    idsOf batch = List.range' before.nextId batch.length ∧
      batch.length + before.nextId = after.nextId

namespace TookIds

variable {before after : FeedState} {batch : List Entry}

theorem refl (feed : FeedState) : TookIds feed feed [] := ⟨rfl, fun _ => ⟨rfl, Nat.zero_add _⟩⟩

/-- One more message takes the next id. -/
theorem concat (h : TookIds before after batch) (entry : Entry) (hid : entry.2.id = after.nextId) :
    TookIds before after.takeId.2 (batch ++ [entry]) where
  frame := by
    rw [FeedState.takeId]
    dsimp only
    rw [h.frame]
  ids := fun hroom => by
    rw [List.length_append, List.length_singleton] at hroom ⊢
    obtain ⟨hids, hnext⟩ := h.ids (by omega)
    constructor
    · rw [idsOf, List.map_append, ← idsOf, hids, List.map_singleton, hid, ← hnext,
        List.range'_concat, Nat.one_mul, Nat.add_comm]
    · change _ = (after.nextId + 1) % 18446744073709551616
      rw [← hnext, Nat.mod_eq_of_lt (by omega)]
      exact Nat.add_right_comm _ _ _

theorem of_feed_eq {feed : FeedState} (h : TookIds before after batch) (heq : feed = after) :
    TookIds before feed batch := heq ▸ h

theorem nonces_eq (h : TookIds before after batch) : after.nonces = before.nonces := by rw [h.frame]

theorem inboxSequenced_eq (h : TookIds before after batch) :
    after.inboxSequenced = before.inboxSequenced := by rw [h.frame]

theorem session_eq (h : TookIds before after batch) : after.session = before.session := by
  rw [h.frame]

theorem storage_eq (h : TookIds before after batch) : after.storage = before.storage := by
  rw [h.frame]

theorem limits_eq (h : TookIds before after batch) :
    after.retentionLimits = before.retentionLimits := by rw [h.frame]

/-- Ids alone do not move the guard. -/
theorem guard_eq (h : TookIds before after batch) (messages nonces inbox : Nat) :
    after.checkRetentionGrowth messages nonces inbox =
      before.checkRetentionGrowth messages nonces inbox := by
  rw [h.frame]
  rfl

end TookIds

/-! ## The generator -/

theorem mem_of_mem_swapRemove {opened : List OpenOrder} {order held : OpenOrder}
    (h : held ∈ swapRemove opened order) : held ∈ opened := by
  rw [swapRemove] at h
  cases hlast : opened.getLast? with
  | none => simpa [hlast] using h
  | some last =>
      simp only [hlast] at h
      rcases List.mem_or_eq_of_mem_set (List.mem_of_mem_dropLast h) with hmem | rfl
      · exact hmem
      · exact List.mem_of_getLast? hlast

theorem orderToTakeBack_mem {nowMs : Nat} {atTheBound : Bool} {opened : List OpenOrder}
    {order : OpenOrder} (h : orderToTakeBack opened nowMs atTheBound = some order) :
    order ∈ opened := by
  rw [orderToTakeBack] at h
  refine List.foldlRecOn (motive := fun found => ∀ order, found = some order → order ∈ opened)
    opened _ (fun _ hnone => by cases hnone) (fun found hfound head hhead => ?_) order h
  -- An order that is kept was met before, or is the one that is met now.
  intro kept hkept
  split_ifs at hkept
  · exact hfound kept hkept
  · split at hkept
    · cases hkept
      exact hhead
    · split_ifs at hkept
      · cases hkept
        exact hhead
      · exact hfound kept hkept

/-- A number of a generated message. -/
theorem modest_inPrice (priceCents : Int) : Modest (inPrice priceCents) :=
  modest_quotient (by decide) ⟨by omega, by rw [maxGridUnits]; omega⟩

theorem modest_inQuantity (qtyTenths : Int) : Modest (inQuantity qtyTenths) :=
  modest_quotient (by decide) ⟨by omega, by rw [maxGridUnits]; omega⟩

/-- A new order no one has signed. -/
structure Unsigned (msg : OrderMessage) (timestamp : UInt64) (m : NewMessage) : Prop where
  new : msg = .new m
  nonce : m.nonce = none
  timestamp : m.timestamp = timestamp.toNat
  price : Modest m.price
  quantity : Modest m.quantity

/-- What one generated message is, and what it leaves on the list of open orders. -/
structure Generated (state : Sequencer) (draw : Draw) (msg : OrderMessage) (after : Sequencer) :
    Prop where
  id_eq : msg.id = state.feed.nextId
  feed_eq : after.feed = state.feed.takeId.2
  frame : after.accounts = state.accounts ∧ after.accountRows = state.accountRows ∧
    after.operatorKey = state.operatorKey ∧ after.maxAccounts = state.maxAccounts
  /-- A cancel takes back an order that was on the list; everything else is a new order. -/
  kind : (∃ order ∈ state.openOrders, msg = cancelOf msg.id draw.timestamp.toNat order) ∨
    ∃ m, Unsigned msg draw.timestamp m
  opened : ∀ held ∈ after.openOrders, held ∈ state.openOrders ∨
    ∃ m, msg = .new m ∧ m.nonce = none ∧ held.id = m.id

theorem generateMessage_generated (state : Sequencer) (draw : Draw) :
    Generated state draw (state.generateMessage draw).1 (state.generateMessage draw).2 := by
  have cancels {order : OpenOrder} (hmem : order ∈ state.openOrders) (id : OrderId) :
      (∃ order' ∈ state.openOrders, cancelOf id draw.timestamp.toNat order =
        cancelOf (cancelOf id draw.timestamp.toNat order).id draw.timestamp.toNat order') ∨
          ∃ m, Unsigned (cancelOf id draw.timestamp.toNat order) draw.timestamp m :=
    Or.inl ⟨order, hmem, rfl⟩
  rw [Sequencer.generateMessage]
  dsimp only
  split
  case h_1 order hfound =>
    -- The life of an order has ended.
    have hmem : order ∈ state.openOrders := by
      split_ifs at hfound
      exact orderToTakeBack_mem hfound
    exact ⟨rfl, rfl, ⟨rfl, rfl, rfl, rfl⟩, cancels hmem _,
      fun held hheld => Or.inl (mem_of_mem_swapRemove hheld)⟩
  case h_2 =>
  split
  case h_1 taken _ =>
    exact ⟨rfl, rfl, ⟨rfl, rfl, rfl, rfl⟩,
      Or.inr ⟨_, rfl, rfl, rfl, modest_inPrice _, modest_inQuantity _⟩,
      fun held hheld => Or.inl (List.mem_filter.1 hheld).1⟩
  case h_2 =>
  split
  case h_1 order hfound =>
    -- The account's own order stands in the way of the quote.
    exact ⟨rfl, rfl, ⟨rfl, rfl, rfl, rfl⟩, cancels (List.mem_of_find?_eq_some hfound) _,
      fun held hheld => Or.inl (mem_of_mem_swapRemove hheld)⟩
  case h_2 =>
    refine ⟨rfl, rfl, ⟨rfl, rfl, rfl, rfl⟩,
      Or.inr ⟨_, rfl, rfl, rfl, modest_inPrice _, modest_inQuantity _⟩, fun held hheld => ?_⟩
    rcases List.mem_append.1 hheld with hheld | hheld
    · exact Or.inl hheld
    · cases List.mem_singleton.1 hheld
      exact Or.inr ⟨_, rfl, rfl, rfl⟩

theorem generateMessages_took (draws : List Draw) : ∀ (state : Sequencer),
    TookIds state.feed (state.generateMessages draws).2.feed
        ((state.generateMessages draws).1.map fun msg => (none, msg)) ∧
      (state.generateMessages draws).1.length = draws.length := by
  -- The list is taken from its front, and ids are counted from its end.
  suffices h : ∀ (before : FeedState) (batch : List Entry) (state : Sequencer),
      TookIds before state.feed batch →
      TookIds before (state.generateMessages draws).2.feed
          (batch ++ (state.generateMessages draws).1.map fun msg => (none, msg)) ∧
        (state.generateMessages draws).1.length = draws.length from
    fun state => h state.feed [] state (.refl _)
  induction draws with
  | nil =>
      intro before batch state htook
      simpa [Sequencer.generateMessages] using htook
  | cons draw rest ih =>
      intro before batch state htook
      have hgenerated := generateMessage_generated state draw
      obtain ⟨hmore, hlength⟩ := ih before (batch ++ [(none, (state.generateMessage draw).1)])
        (state.generateMessage draw).2
        ((htook.concat (none, _) hgenerated.id_eq).of_feed_eq hgenerated.feed_eq)
      rw [Sequencer.generateMessages]
      exact ⟨by simpa using hmore, by simpa using hlength⟩

/-- What the messages of a burst are, and what they leave on the list of open orders. -/
structure Burst (state : Sequencer) (msgs : List OrderMessage) (after : Sequencer) : Prop where
  frame : after.accounts = state.accounts ∧ after.accountRows = state.accountRows ∧
    after.operatorKey = state.operatorKey ∧ after.maxAccounts = state.maxAccounts
  kind : ∀ msg ∈ msgs, ∃ timestamp : UInt64,
    (∃ held : OpenOrder, (held ∈ state.openOrders ∨
        ∃ m, OrderMessage.new m ∈ msgs ∧ m.nonce = none ∧ held.id = m.id) ∧
      msg = cancelOf msg.id timestamp.toNat held) ∨
    ∃ m, Unsigned msg timestamp m
  opened : ∀ held ∈ after.openOrders, held ∈ state.openOrders ∨
    ∃ m, OrderMessage.new m ∈ msgs ∧ m.nonce = none ∧ held.id = m.id

theorem generateMessages_burst (draws : List Draw) (state : Sequencer) :
    Burst state (state.generateMessages draws).1 (state.generateMessages draws).2 := by
  induction draws generalizing state with
  | nil =>
      exact ⟨⟨rfl, rfl, rfl, rfl⟩, fun _ h => absurd h List.not_mem_nil, fun _ h => Or.inl h⟩
  | cons draw rest ih =>
      have hfirst := generateMessage_generated state draw
      have hrest := ih (state.generateMessage draw).2
      rw [Sequencer.generateMessages]
      dsimp only
      generalize state.generateMessage draw = first at hfirst hrest ⊢
      obtain ⟨msg, next⟩ := first
      -- An order the later messages find on the list was there before, or is this message.
      have hfound {held : OpenOrder} (h : held ∈ next.openOrders ∨
          ∃ m, OrderMessage.new m ∈ (next.generateMessages rest).1 ∧ m.nonce = none ∧
            held.id = m.id) : held ∈ state.openOrders ∨
          ∃ m, OrderMessage.new m ∈ msg :: (next.generateMessages rest).1 ∧ m.nonce = none ∧
            held.id = m.id := by
        rcases h with hnext | ⟨m, hmem, hm⟩
        · rcases hfirst.opened held hnext with hold | ⟨m, hnew, hm⟩
          · exact Or.inl hold
          · exact Or.inr ⟨m, hnew ▸ List.mem_cons_self, hm⟩
        · exact Or.inr ⟨m, List.mem_cons_of_mem _ hmem, hm⟩
      refine ⟨?_, fun other hother => ?_, fun held hheld => hfound (hrest.opened held hheld)⟩
      · obtain ⟨h1, h2, h3, h4⟩ := hfirst.frame
        obtain ⟨h1', h2', h3', h4'⟩ := hrest.frame
        exact ⟨h1'.trans h1, h2'.trans h2, h3'.trans h3, h4'.trans h4⟩
      · rcases List.mem_cons.1 hother with rfl | hother
        · refine ⟨draw.timestamp, hfirst.kind.imp_left fun ⟨held, hheld, hcancel⟩ => ?_⟩
          exact ⟨held, Or.inl hheld, hcancel⟩
        · obtain ⟨timestamp, hkind⟩ := hrest.kind other hother
          refine ⟨timestamp, hkind.imp_left fun ⟨held, hheld, hcancel⟩ => ?_⟩
          exact ⟨held, hfound hheld, hcancel⟩

theorem Burst.nonce_eq {state after : Sequencer} {msgs : List OrderMessage}
    (h : Burst state msgs after) : ∀ msg ∈ msgs, msg.nonce = none := by
  intro msg hmsg
  obtain ⟨timestamp, ⟨held, -, hcancel⟩ | ⟨m, hm⟩⟩ := h.kind msg hmsg
  · rw [hcancel]
    rfl
  · rw [hm.new]
    exact hm.nonce

/-! ## The loop over a page -/

section

variable {env : Primitives} {serde : Wire.Serde} {state : Sequencer}

/-- What every entry keeps, the whole page keeps. -/
theorem passOver_induction {P : List Due → Pass → Prop} {epoch : String} (c : DrainCircumstances)
    (hstart : P [] (Pass.start state))
    (hstep : ∀ done pass due after, P done pass →
      Took env serde c.unread epoch pass due after → P (done ++ [due]) after)
    (page : List Due) : P page (passOver env serde state epoch page c) := by
  suffices h : ∀ rest done pass, P done pass →
      P (done ++ rest) (rest.foldl (Pass.takeEntry env serde c.unread epoch) pass) from
    h page [] _ hstart
  intro rest
  induction rest with
  | nil => exact fun done pass h => by rwa [List.append_nil]
  | cons due rest ih =>
      intro done pass h
      rw [List.foldl_cons, List.append_cons]
      exact ih _ _ (hstep done pass due _ h (takeEntry_took serde c.unread epoch pass due))

theorem already_eq_none {pass : Pass} {key : NonceKey} (h : pass.already key = none) :
    key ∉ pass.state.feed.nonces ∧ key ∉ pass.batchNonces := by
  rw [Pass.already, Option.or_eq_none_iff, Option.map_eq_none_iff, Option.map_eq_none_iff,
    AList.lookup_eq_none, AList.lookup_eq_none] at h
  exact h

/-- What holds of the group a pass has made so far. -/
structure PassOk (state : Sequencer) (done : List Due) (pass : Pass) : Prop where
  took : TookIds state.feed pass.state.feed pass.batch
  count : pass.batch.length ≤ done.length
  nonces : ∀ key ∈ pass.batch.filterMap (fun entry => nonceKey entry.2),
    key ∉ state.feed.nonces ∧ key ∈ pass.batchNonces
  nodup : (pass.batch.filterMap fun entry => nonceKey entry.2).Nodup
  unpaired : ∀ key ∈ pass.batch.filterMap Prod.fst, key ∉ state.feed.inboxSequenced
  room : pass.batch = [] ∨ state.feed.checkRetentionGrowth pass.batch.length pass.batch.length
    pass.batch.length = .ok ()

namespace PassOk

variable {done : List Due} {pass after : Pass} {due : Due}

theorem start (state : Sequencer) : PassOk state [] (Pass.start state) where
  took := .refl _
  count := le_rfl
  nonces := fun _ h => absurd h List.not_mem_nil
  nodup := List.nodup_nil
  unpaired := fun _ h => absurd h List.not_mem_nil
  room := Or.inl rfl

/-- An entry that gets no id changes what the page leaves, and the accounts. -/
theorem pass_over (h : PassOk state done pass) (hfeed : after.state.feed = pass.state.feed)
    (hbatch : after.batch = pass.batch) (hnonces : after.batchNonces = pass.batchNonces) :
    PassOk state (done ++ [due]) after where
  took := hbatch ▸ h.took.of_feed_eq hfeed
  count := by
    rw [hbatch, List.length_append]
    exact Nat.le_add_right_of_le h.count
  nonces := by
    rw [hbatch, hnonces]
    exact h.nonces
  nodup := by
    rw [hbatch]
    exact h.nodup
  unpaired := by
    rw [hbatch]
    exact h.unpaired
  room := by
    rw [hbatch]
    exact h.room

theorem give {epoch : String} {key nonce : Bytes} {pinned : Sequencer} (h : PassOk state done pass)
    (hgiven : Given env pass epoch due key nonce pinned) :
    PassOk state (done ++ [due]) ({ pass with state := pinned }.give (epoch, due.entry.inboxId)
      (due.entry.signed.submission.accountOf, nonce)
      fun id => messageFrom id due.now.toNat due.entry.signed.submission) := by
  have hkey (id : OrderId) := nonceKey_messageFrom id due.now.toNat hgiven.nonce_eq
  obtain ⟨hunspent, hunused⟩ := already_eq_none hgiven.unspent
  have hnonces (id : OrderId) (batch : List Entry) :
      (batch ++ [(some (epoch, due.entry.inboxId),
        messageFrom id due.now.toNat due.entry.signed.submission)]).filterMap
          (fun entry : Entry => nonceKey entry.2) =
        batch.filterMap (fun entry => nonceKey entry.2) ++
          [(due.entry.signed.submission.accountOf, nonce)] := by
    rw [List.filterMap_append]
    simp only [List.filterMap_cons, hkey, List.filterMap_nil]
  constructor
  · exact h.took.of_feed_eq hgiven.pinned.feed_eq |>.concat (some _, _) (messageFrom_id _ _ _)
  · rw [Pass.give, List.length_append, List.length_append]
    exact Nat.add_le_add_right h.count 1
  · intro other hother
    rw [Pass.give] at hother ⊢
    dsimp only at hother ⊢
    rw [hnonces, List.mem_append, List.mem_singleton] at hother
    rw [AList.mem_insert]
    rcases hother with hold | rfl
    · exact ⟨(h.nonces other hold).1, Or.inr (h.nonces other hold).2⟩
    · rw [← h.took.nonces_eq]
      exact ⟨hunspent, Or.inl rfl⟩
  · rw [Pass.give]
    dsimp only
    rw [hnonces]
    refine List.nodup_append'.2 ⟨h.nodup, List.nodup_singleton _, ?_⟩
    rw [List.disjoint_singleton]
    exact fun hold => hunused (h.nonces _ hold).2
  · intro other hother
    rw [Pass.give] at hother
    dsimp only at hother
    rw [List.filterMap_append, List.mem_append] at hother
    rcases hother with hold | hnew
    · exact h.unpaired other hold
    · obtain rfl : other = (epoch, due.entry.inboxId) := by simpa using hnew
      rw [← h.took.inboxSequenced_eq, ← AList.lookup_eq_none]
      exact hgiven.unpaired
  · right
    rw [Pass.give, List.length_append]
    have hroom := hgiven.room
    rwa [h.took.guard_eq] at hroom

theorem took_step {epoch : String} {unread : OrderId → Bool} (h : PassOk state done pass)
    (htook : Took env serde unread epoch pass due after) : PassOk state (done ++ [due]) after := by
  cases htook with
  | paired | refused => exact h.pass_over rfl rfl rfl
  | pinnedOnly _ _ _ _ hpin => exact h.pass_over hpin.feed_eq rfl rfl
  | resolved _ _ _ _ _ hresolved => exact h.pass_over hresolved.pinned.feed_eq rfl rfl
  | given _ _ _ hgiven => exact h.give hgiven

end PassOk

theorem passOver_ok (epoch : String) (page : List Due) (c : DrainCircumstances) :
    PassOk state page (passOver env serde state epoch page c) :=
  passOver_induction c (.start state) (fun _ _ _ _ h htook => h.took_step htook) page

/-! ## The group of an event -/

theorem Group.single_took (message : OrderId → OrderMessage) (commits : Bool)
    (hid : ∀ id, (message id).id = id) :
    TookIds state.feed (Group.single state message commits).state.feed
      (Group.single state message commits).batch :=
  (TookIds.refl state.feed).concat (none, message state.feed.nextId) (hid _)

/-- Whatever an event brings to `sequence` has the next ids. -/
theorem Event.group_took {event : Event} {group : Group}
    (h : event.group env serde state = some group) :
    TookIds state.feed group.state.feed group.batch := by
  cases event with
  | submit signed c =>
      rw [Event.group] at h
      split at h
      case h_1 => cases h
      case h_2 admitted hadmitted =>
        cases h
        obtain ⟨key, nonce, hpassed⟩ := admit_eq_ok hadmitted
        rw [← hpassed.pinned.feed_eq]
        exact Group.single_took _ _ fun id => messageFrom_id _ _ _
  | submitOperator req c =>
      rw [Event.group] at h
      split at h
      case h_1 => cases h
      case h_2 =>
        cases h
        exact Group.single_took _ _ fun id => SubmitOperatorRequest.message_id _ _ _
  | drain epoch due c =>
      rw [Event.group] at h
      split_ifs at h
      cases h
      exact (passOver_ok epoch due c).took
  | generate draws commits =>
      rw [Event.group] at h
      split_ifs at h
      split at h
      case h_1 => cases h
      case h_2 =>
        cases h
        exact (generateMessages_took draws state).1
  | restart => cases h

/-- A group is no longer than what the event carries. -/
theorem Event.group_length {event : Event} {group : Group}
    (h : event.group env serde state = some group) (hholdable : event.Holdable) :
    group.batch.length < 9223372036854775808 := by
  cases event with
  | submit signed c =>
      rw [Event.group] at h
      split at h <;> cases h
      exact Nat.lt_of_sub_eq_succ rfl
  | submitOperator req c =>
      rw [Event.group] at h
      split at h <;> cases h
      exact Nat.lt_of_sub_eq_succ rfl
  | drain epoch due c =>
      rw [Event.group] at h
      split_ifs at h
      cases h
      exact (passOver_ok epoch due c).count.trans_lt hholdable
  | generate draws commits =>
      rw [Event.group] at h
      split_ifs at h
      split at h <;> cases h
      rw [List.length_map, (generateMessages_took draws state).2]
      exact hholdable
  | restart => cases h

/-- No two entries that a drain pass gives ids to are one entry of the separate service. -/
def Event.Distinct (env : Primitives) (serde : Wire.Serde) (state : Sequencer) : Event → Prop
  | drain epoch due c =>
      state.logIsOpen = true →
        ((passOver env serde state epoch due c).batch.filterMap Prod.fst).Nodup
  | _ => True

theorem filterMap_fst_generated (burst : List OrderMessage) :
    (burst.map fun msg => ((none, msg) : Entry)).filterMap Prod.fst = [] := by
  rw [List.filterMap_map]
  exact List.filterMap_eq_nil_iff.2 fun _ _ => rfl

theorem filterMap_nonceKey_generated {burst : List OrderMessage}
    (h : ∀ msg ∈ burst, msg.nonce = none) :
    (burst.map fun msg => ((none, msg) : Entry)).filterMap (fun entry => nonceKey entry.2) = [] := by
  rw [List.filterMap_map]
  refine List.filterMap_eq_nil_iff.2 fun msg hmem => ?_
  change nonceKey msg = none
  rw [nonceKey, h msg hmem]
  rfl

open FeedState in
theorem Group.single_guard {message : OrderId → OrderMessage} {commits : Bool} {key : NonceKey}
    (hkey : ∀ id, nonceKey (message id) = some key) (hunspent : state.feed.nonces.lookup key = none)
    (hroom : state.feed.checkRetentionGrowth 1 1 0 = .ok ()) :
    (Group.single state message commits).state.feed.checkRetentionBatch
      (Group.single state message commits).batch = .ok () := by
  obtain ⟨hbatch, hmemory, hnonces, -⟩ := checkRetentionGrowth_eq_ok.1 hroom
  refine checkRetentionBatch_eq_ok.2 ⟨hbatch, hmemory, ?_, ?_⟩
  · have hkeys : (Group.single state message commits).batch.filterMap
        (fun entry => nonceKey entry.2) = [key] := by
      simp only [Group.single, List.filterMap_cons, hkey, List.filterMap_nil]
    rw [hkeys]
    refine ⟨fun other hother => ?_, List.nodup_singleton _, Or.inr hnonces⟩
    cases List.mem_singleton.1 hother
    exact ⟨AList.lookup_eq_none.1 hunspent, List.not_mem_nil⟩
  · exact ⟨fun _ h => absurd h List.not_mem_nil, List.nodup_nil, Or.inl rfl⟩

open FeedState in
/-- What each caller has checked covers the guard of `sequence`. -/
theorem Event.group_guard {event : Event} {group : Group}
    (h : event.group env serde state = some group) (hdistinct : event.Distinct env serde state) :
    group.state.feed.checkRetentionBatch group.batch = .ok () := by
  cases event with
  | submit signed c =>
      rw [Event.group] at h
      split at h
      case h_1 => cases h
      case h_2 admitted hadmitted =>
        cases h
        obtain ⟨key, nonce, hpassed⟩ := admit_eq_ok hadmitted
        refine Group.single_guard (fun id => nonceKey_messageFrom _ _ hpassed.nonce_eq) ?_ ?_
        · rw [hpassed.pinned.feed_eq]
          exact hpassed.unspent
        · rw [hpassed.pinned.feed_eq]
          exact hpassed.room
  | submitOperator req c =>
      rw [Event.group] at h
      split at h
      case h_1 => cases h
      case h_2 hadmitted =>
        cases h
        obtain ⟨nonce, hpassed⟩ := admitOperator_eq_ok hadmitted
        refine Group.single_guard (fun id => ?_) hpassed.unspent hpassed.room
        rw [nonceKey, SubmitOperatorRequest.message_nonce, SubmitOperatorRequest.message_account]
        simp [hpassed.nonce_eq]
  | drain epoch due c =>
      rw [Event.group] at h
      split_ifs at h with hopen
      cases h
      have hok : PassOk state due (passOver env serde state epoch due c) := passOver_ok epoch due c
      refine checkRetentionBatch_eq_ok.2 ?_
      rw [hok.took.limits_eq, hok.took.storage_eq, hok.took.nonces_eq, hok.took.inboxSequenced_eq]
      have hnonces := List.length_filterMap_le (fun entry => nonceKey entry.2)
        (passOver env serde state epoch due c).batch
      have hinbox := List.length_filterMap_le Prod.fst (passOver env serde state epoch due c).batch
      rcases hok.room with hnil | hroom
      · rw [hnil]
        exact ⟨Nat.zero_le _, fun _ => Nat.zero_le _,
          ⟨fun _ h => absurd h List.not_mem_nil, List.nodup_nil, Or.inl rfl⟩,
          ⟨fun _ h => absurd h List.not_mem_nil, List.nodup_nil, Or.inl rfl⟩⟩
      · obtain ⟨hbatch, hmemory, hmore, hmore'⟩ := checkRetentionGrowth_eq_ok.1 hroom
        refine ⟨hbatch, hmemory, ⟨fun key hkey => ⟨(hok.nonces key hkey).1, List.not_mem_nil⟩,
          hok.nodup, Or.inr ?_⟩, ⟨fun key hkey => ⟨hok.unpaired key hkey, List.not_mem_nil⟩,
          hdistinct hopen, Or.inr ?_⟩⟩
        · rw [List.length_nil, Nat.zero_add]
          exact hnonces.trans hmore
        · rw [List.length_nil, Nat.zero_add]
          exact hinbox.trans hmore'
  | generate draws commits =>
      rw [Event.group] at h
      split_ifs at h
      split at h
      case h_1 => cases h
      case h_2 hroom =>
        cases h
        obtain ⟨htook, hlength⟩ := generateMessages_took draws state
        have hnone := (generateMessages_burst draws state).nonce_eq
        obtain ⟨hbatch, hmemory, -, -⟩ := checkRetentionGrowth_eq_ok.1 hroom
        refine checkRetentionBatch_eq_ok.2 ?_
        rw [filterMap_fst_generated, filterMap_nonceKey_generated hnone, List.length_map, hlength,
          htook.limits_eq, htook.storage_eq]
        exact ⟨hbatch, hmemory,
          ⟨fun _ h => absurd h List.not_mem_nil, List.nodup_nil, Or.inl rfl⟩,
          ⟨fun _ h => absurd h List.not_mem_nil, List.nodup_nil, Or.inl rfl⟩⟩
  | restart => cases h

end

end Feed
end VerifiableExchange

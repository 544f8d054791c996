import VerifiableExchange.Feed.Groups

/-!
# Origin — where a published message comes from

Every message of a group is a submission its account's key signed, a request the operator signed, or
simulated traffic, and each of them can be written down. Keys are fixed to accounts on the way and
never change.
-/

namespace VerifiableExchange
namespace Feed

open Lib Merkle Logchain Inbox Wire

variable {env : Primitives} {serde : Wire.Serde} {state : Sequencer} {event : Event} {group : Group}

/-! ## Keys of accounts -/

/-- Keys were fixed to accounts, one after another, and the published state may have moved. -/
inductive PinSteps (env : Primitives) (state : Sequencer) : Sequencer → Prop
  | refl : PinSteps env state state
  | pin {before after : Sequencer} (signed : SignedSubmission) (key : Bytes) :
      PinSteps env state before → Authorised env signed key →
      Pinned before signed.submission.accountOf key after → PinSteps env state after
  | move {before : Sequencer} (feed : FeedState) :
      PinSteps env state before → feed.storage = before.feed.storage →
      PinSteps env state { before with feed := feed }

namespace PinSteps

variable {after : Sequencer}

theorem mono (h : PinSteps env state after) {account : AccountId} {key : Bytes}
    (hfixed : state.accounts.lookup account = some key) :
    after.accounts.lookup account = some key := by
  induction h with
  | refl => exact hfixed
  | pin _ _ _ _ hpin ih => exact hpin.mono ih
  | move _ _ _ ih => exact ih

theorem openOrders_eq (h : PinSteps env state after) : after.openOrders = state.openOrders := by
  induction h with
  | refl => rfl
  | pin _ _ _ _ hpin ih =>
      rw [hpin.frame]
      exact ih
  | move _ _ _ ih => exact ih

theorem storage_eq (h : PinSteps env state after) :
    after.feed.storage = state.feed.storage := by
  induction h with
  | refl => rfl
  | pin _ _ _ _ hpin ih => rw [hpin.feed_eq, ih]
  | move _ _ hsame ih => exact hsame.trans ih

end PinSteps

/-- The row of a key fixed to an account. -/
def pinRow (pin : AccountId × Bytes) : AccountRow := ⟨pin.1.val, toHex pin.2⟩

/-- The rows of the database are the keys fixed to accounts, each a key that can be read back. -/
structure PinsOk (env : Primitives) (state : Sequencer) : Prop where
  room : state.accounts.entries.length ≤ state.maxAccounts
  rows : state.feed.storage.isMemory = false → ∃ pins : List (AccountId × Bytes),
    state.accountRows = pins.map pinRow ∧ state.accounts = spend ∅ pins ∧
      Fresh (∅ : AList fun _ : AccountId => Bytes) (pins.map Prod.fst) ∧
      ∀ pin ∈ pins, pin.2.length = 32 ∧ env.isVerifyingKey pin.2 = true

theorem verifyAccountSignature_eq_ok {signed : SignedSubmission} {key : Bytes}
    (h : verifyAccountSignature env signed = .ok key) :
    key.length = 32 ∧ env.isVerifyingKey key = true := by
  unfold verifyAccountSignature at h
  split at h
  case h_1 => cases h
  case h_2 read hread =>
    split_ifs at h with hpoint
    split at h
    case h_1 => cases h
    case h_2 =>
      split at h
      case h_1 => cases h
      case h_2 =>
        split_ifs at h
        cases h
        exact ⟨Operator.length_fromHex hread, by simpa using hpoint⟩

namespace PinsOk

theorem pinned {signed : SignedSubmission} {key : Bytes} {after : Sequencer}
    (h : PinsOk env state) (hauthorised : Authorised env signed key)
    (hpin : Pinned state signed.submission.accountOf key after) : PinsOk env after := by
  obtain ⟨hlength, hkey⟩ := verifyAccountSignature_eq_ok hauthorised.verified
  cases hpin with
  | known => exact h
  | inMemory hnone hroom hmemory =>
      refine ⟨?_, fun hdisk => absurd (hmemory.symm.trans hdisk) (by decide)⟩
      change (AList.insert signed.submission.accountOf key state.accounts).entries.length ≤ _
      rw [AList.insert_of_notMem (AList.lookup_eq_none.1 hnone)]
      exact hroom
  | onDisk hnone hroom hdisk hrows =>
      refine ⟨?_, fun _ => ?_⟩
      · change (AList.insert signed.submission.accountOf key state.accounts).entries.length ≤ _
        rw [AList.insert_of_notMem (AList.lookup_eq_none.1 hnone)]
        exact hroom
      · obtain ⟨pins, hpinrows, haccounts, hfresh, hkeys⟩ := h.rows hdisk
        refine ⟨pins ++ [(signed.submission.accountOf, key)], ?_, ?_, ?_, ?_⟩
        · rw [List.map_append, ← hpinrows]
          rfl
        · rw [spend_append, ← haccounts]
          rfl
        · refine ⟨fun _ _ => AList.notMem_empty _, ?_⟩
          rw [List.map_append, List.map_singleton]
          refine List.nodup_append'.2 ⟨hfresh.nodup, List.nodup_singleton _, ?_⟩
          rw [List.disjoint_singleton]
          intro hmem
          obtain ⟨pin, hpin, hsame⟩ := List.mem_map.1 hmem
          refine hrows (pinRow pin) ?_ ?_
          · rw [hpinrows]
            exact List.mem_map_of_mem hpin
          · exact congrArg (fun account : AccountId => (account.val : Int)) hsame
        · intro pin hpin
          rcases List.mem_append.1 hpin with hold | hnew
          · exact hkeys pin hold
          · cases List.mem_singleton.1 hnew
            exact ⟨hlength, hkey⟩

theorem moved {after : Sequencer} (h : PinsOk env state)
    (hmemory : after.feed.storage.isMemory = state.feed.storage.isMemory)
    (hframe : after.accounts = state.accounts ∧ after.accountRows = state.accountRows ∧
      after.maxAccounts = state.maxAccounts) : PinsOk env after where
  room := by
    rw [hframe.1, hframe.2.2]
    exact h.room
  rows := fun hdisk => by
    rw [hframe.1, hframe.2.1]
    exact h.rows (hmemory ▸ hdisk)

theorem steps {after : Sequencer} (h : PinsOk env state) (hsteps : PinSteps env state after) :
    PinsOk env after := by
  induction hsteps with
  | refl => exact h
  | pin _ _ _ hauthorised hpin ih => exact ih.pinned hauthorised hpin
  | move feed _ hsame ih => exact ih.moved (by rw [hsame]) ⟨rfl, rfl, rfl⟩

end PinsOk

/-! ## Messages -/

/-- The submission a message was made of, and the key that signed it. -/
structure FromSubmission (env : Primitives) (session : String)
    (accounts : AList fun _ : AccountId => Bytes) (signed : SignedSubmission) (key : Bytes)
    (msg : OrderMessage) : Prop where
  authorised : Authorised env signed key
  session_eq : checkSession session signed.submission = .ok ()
  message_eq : ∃ now : UInt64, msg = messageFrom msg.id now.toNat signed.submission
  pinned : accounts.lookup signed.submission.accountOf = some key

theorem FromSubmission.mono {session : String} {accounts later : AList fun _ : AccountId => Bytes}
    {signed : SignedSubmission} {key : Bytes} {msg : OrderMessage}
    (h : FromSubmission env session accounts signed key msg)
    (hlater : ∀ account key, accounts.lookup account = some key →
      later.lookup account = some key) :
    FromSubmission env session later signed key msg :=
  ⟨h.authorised, h.session_eq, h.message_eq, hlater _ _ h.pinned⟩

/-- Where one message of a group comes from. -/
inductive Sourced (env : Primitives) (state : Sequencer) (event : Event) (group : Group)
    (entry : Entry) : Prop
  | submission (signed : SignedSubmission) (key : Bytes) :
      FromSubmission env state.feed.session group.state.accounts signed key entry.2 →
      ((∃ c, event = .submit signed c ∧ entry.1 = none) ∨
        ∃ epoch page c due, event = .drain epoch page c ∧ due ∈ page ∧
          due.entry.signed = signed ∧ entry.1 = some (epoch, due.entry.inboxId)) →
      Sourced env state event group entry
  | operator (req : SubmitOperatorRequest) (nonce : Bytes) (now : UInt64) :
      OperatorAdmitted env state req nonce → entry = (none, req.message entry.2.id now.toNat) →
      Sourced env state event group entry
  | generated (timestamp : UInt64) :
      entry.1 = none →
      ((∃ held : OpenOrder, (held ∈ state.openOrders ∨ ∃ other ∈ group.batch, ∃ m,
          other.2 = .new m ∧ m.nonce = none ∧ held.id = m.id) ∧
        entry.2 = cancelOf entry.2.id timestamp.toNat held) ∨
      ∃ m, Unsigned entry.2 timestamp m) →
      Sourced env state event group entry

/-- What the loop over a page has given ids to. -/
structure PassSourced (env : Primitives) (state : Sequencer) (epoch : String) (done : List Due)
    (pass : Pass) : Prop where
  steps : PinSteps env state pass.state
  took : TookIds state.feed pass.state.feed pass.batch
  each : ∀ entry ∈ pass.batch, ∃ due ∈ done, ∃ key,
    FromSubmission env state.feed.session pass.state.accounts due.entry.signed key entry.2 ∧
      entry.1 = some (epoch, due.entry.inboxId)

namespace PassSourced

variable {epoch : String} {done : List Due} {pass after : Pass} {due : Due}

theorem pass_over {left : Sequencer} (h : PassSourced env state epoch done pass)
    (hsteps : PinSteps env state left) (hfeed : left.feed = pass.state.feed)
    (hmono : ∀ account key, pass.state.accounts.lookup account = some key →
      left.accounts.lookup account = some key)
    (hstate : after.state = left) (hbatch : after.batch = pass.batch) :
    PassSourced env state epoch (done ++ [due]) after where
  steps := hstate ▸ hsteps
  took := by
    rw [hbatch, hstate]
    exact h.took.of_feed_eq hfeed
  each := fun entry hentry => by
    rw [hbatch] at hentry
    obtain ⟨d, hd, key, hfrom, hkey⟩ := h.each entry hentry
    refine ⟨d, List.mem_append_left _ hd, key, ?_, hkey⟩
    rw [hstate]
    exact FromSubmission.mono hfrom hmono

theorem step {unread : OrderId → Bool} (h : PassSourced env state epoch done pass)
    (htook : Took env serde unread epoch pass due after) :
    PassSourced env state epoch (done ++ [due]) after := by
  cases htook with
  | paired | refused => exact h.pass_over h.steps rfl (fun _ _ h => h) rfl rfl
  | pinnedOnly key pinned _ hauthorised hpin =>
      exact h.pass_over (.pin _ key h.steps hauthorised hpin) hpin.feed_eq (fun _ _ => hpin.mono) rfl
        rfl
  | resolved key nonce pinned _ _ hresolved =>
      exact h.pass_over (.pin _ key h.steps hresolved.authorised hresolved.pinned)
        hresolved.pinned.feed_eq (fun _ _ => hresolved.pinned.mono) rfl rfl
  | given key nonce pinned hgiven =>
      have hpinned := PinSteps.pin _ key h.steps hgiven.authorised hgiven.pinned
      refine ⟨hpinned.move pinned.feed.takeId.2 rfl, ?_, fun entry hentry => ?_⟩
      · exact h.took.of_feed_eq hgiven.pinned.feed_eq |>.concat (some _, _) (messageFrom_id _ _ _)
      · rcases List.mem_append.1 hentry with hold | hnew
        · obtain ⟨d, hd, key', hfrom, hkey⟩ := h.each entry hold
          exact ⟨d, List.mem_append_left _ hd, key',
            FromSubmission.mono hfrom fun _ _ => hgiven.pinned.mono, hkey⟩
        · cases List.mem_singleton.1 hnew
          refine ⟨due, List.mem_append_right _ (List.mem_singleton_self due), key,
            ⟨hgiven.authorised, ?_, ⟨due.now, ?_⟩, hgiven.pinned.lookup_eq⟩, rfl⟩
          · rw [← h.took.session_eq]
            exact hgiven.session_eq
          · dsimp only
            rw [messageFrom_id]

end PassSourced

theorem passOver_sourced (epoch : String) (page : List Due) (c : DrainCircumstances) :
    PassSourced env state epoch page (passOver env serde state epoch page c) :=
  passOver_induction c ⟨.refl, .refl _, fun _ h => absurd h List.not_mem_nil⟩
    (fun _ _ _ _ h htook => h.step htook) page

/-- Every message of a group has one of the three origins. -/
theorem Event.group_sourced (h : event.group env serde state = some group) :
    ∀ entry ∈ group.batch, Sourced env state event group entry := by
  intro entry hentry
  cases event with
  | submit signed c =>
      rw [Event.group] at h
      split at h
      case h_1 => cases h
      case h_2 admitted hadmitted =>
        cases h
        obtain ⟨key, nonce, hpassed⟩ := admit_eq_ok hadmitted
        cases List.mem_singleton.1 hentry
        refine .submission signed key ⟨hpassed.authorised, hpassed.session_eq, ⟨c.now, ?_⟩,
          hpassed.pinned.lookup_eq⟩ (Or.inl ⟨c, rfl, rfl⟩)
        dsimp only
        rw [messageFrom_id]
  | submitOperator req c =>
      rw [Event.group] at h
      split at h
      case h_1 => cases h
      case h_2 hadmitted =>
        cases h
        obtain ⟨nonce, hpassed⟩ := admitOperator_eq_ok hadmitted
        cases List.mem_singleton.1 hentry
        refine .operator req nonce c.now hpassed ?_
        dsimp only
        rw [SubmitOperatorRequest.message_id]
  | drain epoch page c =>
      rw [Event.group] at h
      split_ifs at h
      cases h
      obtain ⟨due, hdue, key, hfrom, hkey⟩ := (passOver_sourced epoch page c).each entry hentry
      exact .submission due.entry.signed key hfrom
        (Or.inr ⟨epoch, page, c, due, rfl, hdue, rfl, hkey⟩)
  | generate draws commits =>
      rw [Event.group] at h
      split_ifs at h
      split at h
      case h_1 => cases h
      case h_2 =>
        cases h
        obtain ⟨msg, hmsg, rfl⟩ := List.mem_map.1 hentry
        obtain ⟨timestamp, hkind⟩ := (generateMessages_burst draws state).kind msg hmsg
        refine .generated timestamp rfl (hkind.imp_left ?_)
        rintro ⟨held, hheld, hcancel⟩
        refine ⟨held, hheld.imp_right ?_, hcancel⟩
        rintro ⟨m, hmem, hm⟩
        exact ⟨(none, .new m), List.mem_map_of_mem hmem, m, rfl, hm⟩
  | restart => cases h

/-! ## What a group leaves of the sequencer -/

/-- What the keys and the list of open orders are when a group comes to `sequence`. -/
structure GroupKept (env : Primitives) (state : Sequencer) (group : Group) : Prop where
  pins : PinsOk env state → PinsOk env group.state
  mono : ∀ account key, state.accounts.lookup account = some key →
    group.state.accounts.lookup account = some key
  /-- An order comes on the list in a group that passes the guard, as a new order of that group. -/
  opened : ∀ held ∈ group.state.openOrders, held ∈ state.openOrders ∨
    (group.state.feed.checkRetentionBatch group.batch = .ok () ∧
      ∃ entry ∈ group.batch, ∃ m, entry.2 = .new m ∧ m.nonce = none ∧ held.id = m.id)

theorem GroupKept.of_pinSteps {after : Sequencer} {batch : List Entry} {commits : Bool}
    (h : PinSteps env state after) : GroupKept env state ⟨after, batch, commits⟩ where
  pins := fun hpins => hpins.steps h
  mono := fun _ _ => h.mono
  opened := fun _ hheld => Or.inl (h.openOrders_eq ▸ hheld)

theorem Event.group_kept (h : event.group env serde state = some group) :
    GroupKept env state group := by
  have hguard := Event.group_guard h
  cases event with
  | submit signed c =>
      rw [Event.group] at h
      split at h
      case h_1 => cases h
      case h_2 admitted hadmitted =>
        cases h
        obtain ⟨key, nonce, hpassed⟩ := admit_eq_ok hadmitted
        exact .of_pinSteps
          ((PinSteps.refl.pin signed key hpassed.authorised hpassed.pinned).move _ rfl)
  | submitOperator req c =>
      rw [Event.group] at h
      split at h
      case h_1 => cases h
      case h_2 =>
        cases h
        exact .of_pinSteps (PinSteps.refl.move _ rfl)
  | drain epoch page c =>
      rw [Event.group] at h
      split_ifs at h
      cases h
      exact .of_pinSteps (passOver_sourced epoch page c).steps
  | generate draws commits =>
      rw [Event.group] at h
      split_ifs at h
      split at h
      case h_1 => cases h
      case h_2 =>
        cases h
        have hburst := generateMessages_burst draws state
        have hstorage := (generateMessages_took draws state).1.storage_eq
        refine ⟨fun hpins => hpins.moved (by rw [hstorage])
          ⟨hburst.frame.1, hburst.frame.2.1, hburst.frame.2.2.2⟩, fun _ _ hfixed => ?_,
          fun _ hheld => (hburst.opened _ hheld).imp_right ?_⟩
        · dsimp only
          rw [hburst.frame.1]
          exact hfixed
        · rintro ⟨m, hmem, hm⟩
          exact ⟨hguard trivial, (none, .new m), List.mem_map_of_mem hmem, m, rfl, hm⟩
  | restart => cases h

/-! ## Messages that can be written -/

theorem fits_messageFrom {id : OrderId} {submission : Submission} (now : UInt64)
    (hvalid : validateSubmission submission = .ok ()) (hid : id < 18446744073709551616) :
    Fits (messageFrom id now.toNat submission) := by
  cases submission with
  | order o =>
      obtain ⟨-, -, -, ⟨cents, hprice⟩, tenths, hquantity⟩ := validateSubmission_order.1 hvalid
      exact ⟨hid, now.toNat_lt, modest_of_toGrid (by decide) hprice,
        modest_of_toGrid (by decide) hquantity⟩
  | cancel c => exact ⟨hid, now.toNat_lt, c.targetId.toNat_lt⟩

theorem fits_operatorMessage {req : SubmitOperatorRequest} {id : OrderId} (now : UInt64)
    {session : String} {key : Bytes} (hid : id < 18446744073709551616)
    (hverify : Operator.verify env (req.message 0 0) session key = true) :
    Fits (req.message id now.toNat) := by
  cases req with
  | listSymbol symbol priceStep quantityStep nonce publicKey signature =>
      obtain ⟨-, cents, tenths, hprice, hquantity⟩ := Operator.verify_listSymbol hverify
      exact ⟨hid, now.toNat_lt, modest_of_toGrid (by decide) hprice,
        modest_of_toGrid (by decide) hquantity⟩
  | delistSymbol => exact ⟨hid, now.toNat_lt⟩
  | engineRule version => exact ⟨hid, now.toNat_lt, version.toNat_lt⟩

/-- Every message of a group has a text, once its id is one of 64 bits. -/
theorem Event.group_fits (h : event.group env serde state = some group)
    (hids : ∀ entry ∈ group.batch, entry.2.id < 18446744073709551616)
    (hheld : ∀ held ∈ state.openOrders, held.id < 18446744073709551616) :
    ∀ entry ∈ group.batch, Fits entry.2 := by
  intro entry hentry
  have hid := hids entry hentry
  cases Event.group_sourced h entry hentry with
  | submission signed key hfrom =>
      obtain ⟨now, hmessage⟩ := hfrom.message_eq
      rw [hmessage]
      exact fits_messageFrom now hfrom.authorised.valid hid
  | operator req nonce now hadmitted hmessage =>
      obtain ⟨key, -, hverify⟩ := hadmitted.verified
      have hmsg : entry.2 = req.message entry.2.id now.toNat := congrArg Prod.snd hmessage
      rw [hmsg]
      exact fits_operatorMessage now hid hverify
  | generated timestamp _ hkind =>
      rcases hkind with ⟨held, hwhere, hcancel⟩ | ⟨m, hnew⟩
      · rw [hcancel]
        refine ⟨hid, timestamp.toNat_lt, ?_⟩
        rcases hwhere with hopen | ⟨other, hother, m, hm, -, hsame⟩
        · exact hheld held hopen
        · have hlt := hids other hother
          rw [hm] at hlt
          change held.id < _
          rw [hsame]
          exact hlt
      · rw [hnew.new] at hid ⊢
        exact ⟨hid, by rw [hnew.timestamp]; exact timestamp.toNat_lt, hnew.price, hnew.quantity⟩

end Feed
end VerifiableExchange

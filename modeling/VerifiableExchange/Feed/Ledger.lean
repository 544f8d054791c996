import VerifiableExchange.Feed.Lasting
import VerifiableExchange.Feed.Origin

/-!
# Ledger — every message has its author, and every key its one message

What a run keeps of keys: which key signs for an account, which nonce is spent on which message, and
which entry of the separate service became which message. A start reads all of it back from the file,
the nonces out of the bytes of the messages.
-/

namespace VerifiableExchange
namespace Feed

open Lib Merkle Logchain Inbox Wire

variable {sha256 : Bytes → Hash} {env : Primitives} {serde : Wire.Serde} {reread : F64 → F64}
  {verify : Bytes → Bytes → Bytes → Bool} {world next : World} {event : Event}
  {shown : InboxKey → SignedSubmission → Prop}

/-! ## A file read back -/

/-- The rows of a log, each read for what it says of its own message. -/
theorem filterMap_file {α : Type} {f : FileRow → Option α} {g : Entry → Option α} :
    ∀ {log : List Entry} {links : List Chain}, log.length = links.length →
      (∀ entry ∈ log, ∀ link, f (FileRow.of ⟨idAsI64 entry.2.id, messageText serde entry.2, link⟩) =
        g entry) →
      ((messageRows (rowsOf serde log) links).map FileRow.of).filterMap f = log.filterMap g
  | [], _, _, _ => rfl
  | entry :: rest, link :: links, hlength, h => by
      have ih := filterMap_file (f := f) (g := g) (Nat.succ.inj hlength)
        fun other hother => h other (List.mem_cons_of_mem _ hother)
      have hhead := h entry List.mem_cons_self link
      rw [List.filterMap_cons, ← hhead, ← ih]
      rfl

theorem storedUse_of (hserde : serde.Sound reread) {entry : Entry} (hfits : Fits entry.2)
    (link : Chain) :
    storedUse serde (FileRow.of ⟨idAsI64 entry.2.id, messageText serde entry.2, link⟩) =
      (nonceKey entry.2).map fun key => (key, entry.2.id) := by
  have henvelope : envelope serde
      ((FileRow.of ⟨idAsI64 entry.2.id, messageText serde entry.2, link⟩).json.getD []) =
        .ok ⟨kind entry.2, entry.2.id, entry.2.account, entry.2.nonce⟩ :=
    hserde.envelope_text hfits
  rw [storedUse, henvelope, nonceKey]
  cases entry.2.nonce with
  | none => rfl
  | some text =>
      cases hcanonical : Operator.canonicalNonce text <;> simp [hcanonical]

/-- The nonces a start finds are the ones that were spent. -/
theorem filterMap_storedUse (hserde : serde.Sound reread) {log : List Entry} {links : List Chain}
    (hlength : log.length = links.length) (hfits : ∀ entry ∈ log, Fits entry.2) :
    ((messageRows (rowsOf serde log) links).map FileRow.of).filterMap (storedUse serde) =
      nonceUses log :=
  filterMap_file hlength fun entry hentry link => storedUse_of hserde (hfits entry hentry) link

/-- The messages a start finds are those of the log, their numbers as they are read. -/
theorem filterMap_readMessage (hserde : serde.Sound reread) {log : List Entry} {links : List Chain}
    (hlength : log.length = links.length) (hfits : ∀ entry ∈ log, Fits entry.2) :
    ((messageRows (rowsOf serde log) links).map FileRow.of).filterMap
        (fun row => readMessage serde row.found.json) =
      log.map fun entry => mapNumbers reread entry.2 := by
  have hread := filterMap_file (f := fun row => readMessage serde row.found.json)
    (g := fun entry => some (mapNumbers reread entry.2)) hlength fun entry hentry _ =>
      hserde.readMessage_text (hfits entry hentry)
  exact hread.trans (congrFun List.filterMap_eq_map log)

/-- The pairings a start finds are the ones that were made. -/
theorem foldl_inboxRows {log : List Entry}
    (hids : ∀ entry ∈ log, entry.2.id < 18446744073709551616)
    (known : AList fun _ : InboxKey => OrderId) :
    (inboxRows log).foldl (fun pairs row => pairs.insert row.key (asU64 row.feedId)) known =
      spend known (inboxUses log) := by
  rw [inboxRows, List.foldl_map, spend]
  refine List.foldl_ext _ _ _ fun pairs use huse => ?_
  obtain ⟨entry, hentry, hsome⟩ := List.mem_filterMap.1 huse
  obtain ⟨key, -, rfl⟩ := Option.map_eq_some_iff.1 hsome
  dsimp only
  rw [asU64_idAsI64 (hids entry hentry)]

theorem foldlM_pinRows {isVerifyingKey : Bytes → Bool} {pins : List (AccountId × Bytes)}
    (hpins : ∀ pin ∈ pins, pin.2.length = 32 ∧ isVerifyingKey pin.2 = true) :
    readAccounts isVerifyingKey (pins.map pinRow) = .ok (spend ∅ pins) := by
  unfold readAccounts
  generalize (∅ : AList fun _ : AccountId => Bytes) = known
  induction pins generalizing known with
  | nil => rfl
  | cons pin rest ih =>
      obtain ⟨hlength, hkey⟩ := hpins pin List.mem_cons_self
      have hread : Operator.fromHex 32 (pinRow pin).publicKey.toList = some pin.2 := by
        rw [← hlength]
        exact (congrArg _ (String.toList_ofList)).trans (fromHex_toHex pin.2)
      have haccount : Fin.ofNat 4294967296 ((pinRow pin).account % 4294967296).toNat = pin.1 := by
        apply Fin.ext
        have hlt := pin.1.isLt
        simp only [pinRow, Fin.ofNat]
        omega
      rw [List.map_cons, List.foldlM_cons, hread]
      dsimp only
      rw [if_pos hkey, haccount]
      exact ih (fun other hother => hpins other (List.mem_cons_of_mem _ hother)) _

/-- A checkpoint goes with the stored session; without one there are no messages. -/
theorem checkCheckpoint_session {key : SigningKey} {file : FeedFile} {count : Nat} {chain : Chain}
    {newSession session : String} {root : Option Hash}
    (h : checkCheckpoint verify key file count chain newSession = .ok (session, root)) :
    count = 0 ∨ file.session = some session := by
  unfold checkCheckpoint at h
  split at h
  · split_ifs at h with hcount
    exact Or.inl hcount
  · obtain ⟨stored, hstored, h⟩ := bind_eq_ok.1 h
    refine Or.inr ?_
    simp only [bind_eq_ok, pure, Except.pure, Except.ok.injEq, Prod.mk.injEq] at h
    obtain ⟨-, -, -, -, -, -, -, -, -, -, -, -, hsession, -⟩ := h
    rw [← hsession]
    exact orFail_eq_ok.1 hstored

/-- Whether a start takes the order of a message on the generator's list: an order of one of its
markets that rests, while the list has room. -/
def takesUp (opened : List OpenOrder) : OrderMessage → Bool
  | .new m =>
      SYMBOLS.any (· = m.symbol) && m.terms.orderType = .limit &&
        m.terms.timeInForce = .goodTillCancel && decide (opened.length < MAX_OPEN_ORDERS)
  | _ => false

theorem mem_replayIntoTheOpenOrders {opened : List OpenOrder} {msg : OrderMessage}
    {held : OpenOrder} (h : held ∈ replayIntoTheOpenOrders opened msg) :
    held ∈ opened ∨ takesUp opened msg = true ∧ ∃ m, msg = .new m ∧ held.id = m.id := by
  cases msg with
  | new m =>
      rw [replayIntoTheOpenOrders] at h
      split at h
      case h_1 => exact Or.inl h
      case h_2 market hmarket =>
        dsimp only at h
        split_ifs at h with hterms hroom
        · exact Or.inl (List.mem_of_mem_filter h)
        · exact Or.inl h
        · rcases List.mem_append.1 h with hold | hnew
          · exact Or.inl hold
          · cases List.mem_singleton.1 hnew
            refine Or.inr ⟨?_, m, rfl, rfl⟩
            have hlisted : SYMBOLS.any (· = m.symbol) = true := by
              rw [← List.findIdx?_isSome, hmarket]
              rfl
            simp only [not_or, ne_eq, not_not] at hterms
            simp [takesUp, hlisted, hterms, Nat.not_le.1 hroom]
  | cancel m => exact Or.inl (List.mem_of_mem_filter h)
  | engineRule m => exact Or.inl h
  | listSymbol m => exact Or.inl h
  | delistSymbol m => exact Or.inl h

/-- Every order a start takes up is one of the stored orders. -/
theorem exists_new_of_mem_replay {msgs : List OrderMessage} {opened : List OpenOrder}
    {held : OpenOrder} (h : held ∈ msgs.foldl replayIntoTheOpenOrders opened) :
    held ∈ opened ∨ ∃ m, OrderMessage.new m ∈ msgs ∧ held.id = m.id := by
  induction msgs generalizing opened with
  | nil => exact Or.inl h
  | cons msg rest ih =>
      rcases ih h with hold | ⟨m, hmem, hid⟩
      · rcases mem_replayIntoTheOpenOrders hold with hopen | ⟨-, m, rfl, hid⟩
        · exact Or.inl hopen
        · exact Or.inr ⟨m, List.mem_cons_self, hid⟩
      · exact Or.inr ⟨m, List.mem_cons_of_mem _ hmem, hid⟩

/-! ## Authors -/

/-- The pages of an event show these submissions. -/
def Event.Shows (shown : InboxKey → SignedSubmission → Prop) : Event → Prop
  | drain epoch page _ => ∀ due ∈ page, shown (epoch, due.entry.inboxId) due.entry.signed
  | _ => True

/-- Who a published message is of. -/
inductive Authored (env : Primitives) (shown : InboxKey → SignedSubmission → Prop)
    (session : String) (accounts : AList fun _ : AccountId => Bytes) (entry : Entry) : Prop
  | submission (signed : SignedSubmission) (key : Bytes) :
      FromSubmission env session accounts signed key entry.2 →
      (∀ pair ∈ entry.1, shown pair signed) → Authored env shown session accounts entry
  | operator (req : SubmitOperatorRequest) (nonce : Bytes) (now : UInt64) :
      Operator.canonicalNonce req.nonce = some nonce →
      entry = (none, req.message entry.2.id now.toNat) → Authored env shown session accounts entry
  | generated : entry.1 = none → entry.2.nonce = none → Authored env shown session accounts entry

theorem Authored.mono {session : String} {accounts later : AList fun _ : AccountId => Bytes}
    {entry : Entry} (h : Authored env shown session accounts entry)
    (hlater : ∀ account key, accounts.lookup account = some key →
      later.lookup account = some key) : Authored env shown session later entry := by
  cases h with
  | submission signed key hfrom hshown =>
      exact .submission signed key (hfrom.mono hlater) hshown
  | operator req nonce now hnonce hmessage => exact .operator req nonce now hnonce hmessage
  | generated hnone hnonce => exact .generated hnone hnonce

/-- A message with a nonce spends it in its one spelling. -/
theorem Authored.nonceKey_isSome {session : String} {accounts : AList fun _ : AccountId => Bytes}
    {entry : Entry} (h : Authored env shown session accounts entry)
    (hnonce : entry.2.nonce.isSome = true) : (nonceKey entry.2).isSome = true := by
  cases h with
  | submission signed key hfrom =>
      obtain ⟨now, hmessage⟩ := hfrom.message_eq
      obtain ⟨nonce, hchecked⟩ := exists_nonce hfrom.authorised.valid
      rw [hmessage, nonceKey_messageFrom _ _ hchecked]
      rfl
  | operator req nonce now hcanonical hmessage =>
      rw [hmessage, nonceKey, SubmitOperatorRequest.message_nonce, Option.bind_some, hcanonical]
      rfl
  | generated _ hnone =>
      rw [hnone] at hnonce
      cases hnonce

theorem Sourced.authored {state : Sequencer} {group : Group} {entry : Entry}
    (h : Sourced env state event group entry) (hshows : event.Shows shown) :
    Authored env shown state.feed.session group.state.accounts entry := by
  cases h with
  | submission signed key hfrom hwhere =>
      refine .submission signed key hfrom fun pair hpair => ?_
      rcases hwhere with ⟨c, -, hnone⟩ | ⟨epoch, page, c, due, rfl, hdue, rfl, hpaired⟩
      · rw [hnone] at hpair
        cases hpair
      · rw [hpaired] at hpair
        cases hpair
        exact hshows due hdue
  | operator req nonce now hadmitted hmessage =>
      exact .operator req nonce now hadmitted.nonce_eq hmessage
  | generated timestamp hnone hkind =>
      refine .generated hnone ?_
      rcases hkind with ⟨held, -, hcancel⟩ | ⟨m, hnew⟩
      · rw [hcancel]
        rfl
      · rw [hnew.new]
        exact hnew.nonce

/-! ## The invariant -/

/-- What a sequencer keeps of the keys its log spends. -/
structure Ledger (env : Primitives) (shown : InboxKey → SignedSubmission → Prop) (world : World) :
    Prop where
  pins : PinsOk env world.sequencer
  session : ∀ conn leaves, world.sequencer.feed.storage = .disk conn leaves → world.log ≠ [] →
    conn.session = some world.sequencer.feed.session
  authored : ∀ entry ∈ world.log,
    Authored env shown world.sequencer.feed.session world.sequencer.accounts entry
  fits : ∀ entry ∈ world.log, Fits entry.2
  nonces : world.sequencer.feed.nonces = spend ∅ (nonceUses world.log)
  spent : Fresh (∅ : AList fun _ : NonceKey => OrderId) ((nonceUses world.log).map Prod.fst)
  inbox : world.sequencer.feed.inboxSequenced = spend ∅ (inboxUses world.log)
  paired : Fresh (∅ : AList fun _ : InboxKey => OrderId) ((inboxUses world.log).map Prod.fst)
  table : ∀ conn leaves, world.sequencer.feed.storage = .disk conn leaves →
    conn.inboxSequenced = inboxRows world.log
  opened : ∀ held ∈ world.sequencer.openOrders, held.id < 18446744073709551616

namespace Ledger

/-- Keys may have been fixed and ids taken, and orders may have gone off the list. -/
theorem of_frame (h : Ledger env shown world) {left : Sequencer}
    (hfeed : left.feed = { world.sequencer.feed with
      nextId := left.feed.nextId, treeHead := left.feed.treeHead })
    (hpins : PinsOk env left)
    (hmono : ∀ account key, world.sequencer.accounts.lookup account = some key →
      left.accounts.lookup account = some key)
    (hopened : ∀ held ∈ left.openOrders, held.id < 18446744073709551616) :
    Ledger env shown ⟨left, world.log⟩ := by
  constructor <;> try dsimp only
  · exact hpins
  · rw [hfeed]
    exact h.session
  · intro entry hentry
    rw [hfeed]
    exact (h.authored entry hentry).mono hmono
  · exact h.fits
  · rw [hfeed]
    exact h.nonces
  · exact h.spent
  · rw [hfeed]
    exact h.inbox
  · exact h.paired
  · rw [hfeed]
    exact h.table
  · exact hopened

theorem sequenced (h : Ledger env shown world) (hlasting : Lasting sha256 serde world)
    (hevent : event.Holdable) (hshows : event.Shows shown) {group : Group}
    (hgroup : event.group env serde world.sequencer = some group) {after : Sequencer}
    {outcome : Except SequenceError Unit} (head : Option SignedTreeHead)
    (hsequenced : group.sequenced sha256 serde = .ok (after, outcome))
    (hholdable : World.Holdable ⟨{ after with feed := { after.feed with treeHead := head } },
      world.log ++ group.published sha256 serde⟩) :
    Ledger env shown ⟨{ after with feed := { after.feed with treeHead := head } },
      world.log ++ group.published sha256 serde⟩ := by
  have htook := Event.group_took hgroup
  have hkept := Event.group_kept hgroup
  obtain ⟨hids, hnext⟩ := hlasting.group_ids hevent hgroup
  have hframe : group.state.feed =
      { world.sequencer.feed with nextId := group.state.feed.nextId } := htook.frame
  obtain ⟨hcases, hafter, hopened, -⟩ := Group.sequenced_cases (textsOf serde world.log)
    (htook.storage_eq ▸ hlasting.tree) hsequenced
  have hlast := hlasting.sequenced hevent hgroup head hsequenced hholdable
  -- The ids the group has taken are ids of 64 bits, published or not.
  have hfew : ∀ entry ∈ group.batch, entry.2.id < 18446744073709551616 := fun entry hentry => by
    have hid : entry.2.id ∈ idsOf group.batch := List.mem_map_of_mem hentry
    rw [hids] at hid
    have hlength := Event.group_length hgroup hevent
    have hfirst := hlasting.holdable.ids
    have hlt := (List.mem_range'_1.1 hid).2
    exact lt_of_lt_of_le hlt
      ((Nat.add_le_add hfirst hlength.le).trans (by decide : _ ≤ 18446744073709551616))
  have hbound : ∀ held ∈ after.openOrders, held.id < 18446744073709551616 := fun held hheld => by
    rcases hkept.opened held (hopened held hheld) with hold | ⟨-, entry, hentry, m, hm, -, hsame⟩
    · exact h.opened held hold
    · have hlt := hfew entry hentry
      rw [hm] at hlt
      rw [hsame]
      exact hlt
  have hpins : PinsOk env group.state := hkept.pins h.pins
  have haccounts : after.accounts = group.state.accounts := by rw [hafter]
  have hrows : after.accountRows = group.state.accountRows := by rw [hafter]
  have hmax : after.maxAccounts = group.state.maxAccounts := by rw [hafter]
  have hmono : ∀ account key, world.sequencer.accounts.lookup account = some key →
      after.accounts.lookup account = some key := haccounts ▸ hkept.mono
  generalize hfeed : after.feed = feed at hcases
  -- A group that does not go in leaves the log and both maps.
  have unpublished (herror : group.published sha256 serde = [])
      (hsame : feed = { world.sequencer.feed with nextId := feed.nextId }) :
      Ledger env shown ⟨{ after with feed := { feed with treeHead := head } },
        world.log ++ group.published sha256 serde⟩ := by
    rw [herror, List.append_nil]
    refine h.of_frame ?_ (hpins.moved ?_ ⟨haccounts, hrows, hmax⟩) hmono hbound
    · dsimp only
      rw [hsame]
    · dsimp only
      rw [hsame, htook.storage_eq]
  cases hcases with
  | nothing hnil =>
      exact unpublished (by rw [Group.published_of_ok hsequenced, hnil]) hframe
  | refused => exact unpublished (Group.published_of_error hsequenced) hframe
  | notWritten first =>
      refine unpublished (Group.published_of_error hsequenced) ?_
      rw [hframe]
  | written storage hne hguard hwrote hkeeps =>
      rw [Group.published_of_ok hsequenced]
      obtain ⟨-, -, hnonces, hpairs⟩ := FeedState.checkRetentionBatch_eq_ok.1 hguard
      rw [htook.nonces_eq, h.nonces] at hnonces
      rw [htook.inboxSequenced_eq, h.inbox] at hpairs
      constructor <;> try dsimp only
      · refine hpins.moved ?_ ⟨haccounts, hrows, hmax⟩
        rw [FeedState.appended_storage]
        cases hwrote with
        | memory before _ hbefore => rw [hbefore]; rfl
        | disk conn hbefore => rw [hbefore]; rfl
      · intro conn leaves hstorage _
        rw [FeedState.appended_storage] at hstorage
        subst hstorage
        cases hwrote
        rw [FeedState.appended_session]
        rfl
      · intro entry hentry
        rw [FeedState.appended_session, htook.session_eq]
        rcases List.mem_append.1 hentry with hold | hnew
        · exact (h.authored entry hold).mono hmono
        · rw [haccounts]
          exact (Event.group_sourced hgroup entry hnew).authored hshows
      · intro entry hentry
        rcases List.mem_append.1 hentry with hold | hnew
        · exact h.fits entry hold
        · exact Event.group_fits hgroup hfew h.opened entry hnew
      · rw [FeedState.appended_nonces, htook.nonces_eq, h.nonces, nonceUses_append, spend_append]
      · rw [nonceUses_append, List.map_append]
        refine h.spent.append ⟨fun key hkey => ?_, ?_⟩
        · rw [map_fst_nonceUses] at hkey
          exact (hnonces.1 key hkey).1
        · rw [map_fst_nonceUses]
          exact hnonces.2.1
      · rw [FeedState.appended_inboxSequenced, htook.inboxSequenced_eq, h.inbox, inboxUses_append,
          spend_append]
      · rw [inboxUses_append, List.map_append]
        refine h.paired.append ⟨fun key hkey => ?_, ?_⟩
        · rw [map_fst_inboxUses] at hkey
          exact (hpairs.1 key hkey).1
        · rw [map_fst_inboxUses]
          exact hpairs.2.1
      · intro conn leaves hstorage
        rw [FeedState.appended_storage] at hstorage
        subst hstorage
        cases hwrote with
        | disk before hbefore =>
            rw [htook.storage_eq] at hbefore
            rw [Database.added]
            dsimp only
            rw [h.table before _ hbefore, inboxRows, inboxRows, inboxRows, inboxUses_append,
              List.map_append]
      · exact hbound

/-! ## Starts -/

theorem new (config : Config) (draw : StartDraw) :
    Ledger env shown ⟨Sequencer.new config draw, []⟩ where
  pins := ⟨Nat.zero_le _, fun h => by cases h⟩
  session := fun _ _ h => by cases h
  authored := fun _ h => absurd h List.not_mem_nil
  fits := fun _ h => absurd h List.not_mem_nil
  nonces := rfl
  spent := fresh_nil _
  inbox := rfl
  paired := fresh_nil _
  table := fun _ _ h => by cases h
  opened := fun _ h => absurd h List.not_mem_nil

/-- A start reads back what the file holds of the keys. -/
theorem started (h : Ledger env shown world) (hlasting : Lasting sha256 serde world)
    (hserde : serde.Sound reread) {conn : Database} {leaves : Nat}
    (hstorage : world.sequencer.feed.storage = .disk conn leaves) {config : Config} {draw : StartDraw}
    {scan : Scan} {session : String} {signedRoot : Option Hash} {nodes : List NodeRow}
    {accounts : AList fun _ : AccountId => Bytes}
    (hstarted : Started sha256 env serde verify config (fileOf conn world.sequencer.accountRows) draw
      scan session signedRoot nodes accounts) :
    Ledger env shown ⟨comesUp config (fileOf conn world.sequencer.accountRows) draw scan session nodes
      accounts, world.log⟩ := by
  obtain ⟨hnumbered, hscan⟩ := hlasting.scanned hstorage hstarted.scan_eq
  have hlength : world.log.length = (linksOf sha256 serde world.log).length :=
    (length_linksOf world.log).symm
  obtain ⟨pins, hrows, hpinned, hfresh, hkeys⟩ := h.pins.rows (by rw [hstorage]; rfl)
  have haccounts : accounts = world.sequencer.accounts := by
    have hread : readAccounts env.isVerifyingKey world.sequencer.accountRows = .ok accounts :=
      hstarted.accounts_eq
    rw [hrows, foldlM_pinRows hkeys] at hread
    rw [hpinned]
    exact (Except.ok.inj hread).symm
  have hcount : scan.count = world.log.length := by
    rw [hscan.count, List.length_map, messageRows, List.length_map, List.length_zip,
      ← hlasting.windows.length, min_self, length_rowsOf]
  have hsession : world.log ≠ [] → session = world.sequencer.feed.session := fun hne => by
    rcases checkCheckpoint_session hstarted.checkpoint_eq with hzero | hfile
    · rw [hcount] at hzero
      exact absurd (List.length_eq_zero_iff.1 hzero) hne
    · exact Option.some.inj (hfile.symm.trans (h.session conn leaves hstorage hne))
  have hinbox := h.table conn leaves hstorage
  have hnonces := hscan.nonces
  rw [filterMap_storedUse hserde hlength h.fits] at hnonces
  constructor <;> try dsimp only [comesUp]
  · refine ⟨?_, fun _ => ⟨pins, hrows, haccounts.trans hpinned, hfresh, hkeys⟩⟩
    change accounts.entries.length ≤ config.maxAccounts
    rw [haccounts, hpinned, length_spend hfresh, ← List.length_map (f := pinRow), ← hrows]
    exact (Nat.zero_add _).trans_le hstarted.accountRoom
  · intro kept _ hkept hne
    cases hkept
    rw [hsession hne]
    exact h.session conn leaves hstorage hne
  · intro entry hentry
    rw [hsession (List.ne_nil_of_mem hentry), haccounts]
    exact h.authored entry hentry
  · exact h.fits
  · exact hnonces
  · exact h.spent
  · change conn.inboxSequenced.foldl _ ∅ = _
    rw [hinbox]
    exact foldl_inboxRows (fun entry hentry => (h.fits entry hentry).id_lt) ∅
  · exact h.paired
  · intro kept _ hkept
    cases hkept
    exact hinbox
  · intro held hheld
    obtain ⟨candidate, hcandidate, rfl⟩ := List.mem_map.1 hheld
    rw [hscan.candidates, filterMap_readMessage hserde hlength h.fits] at hcandidate
    rcases exists_new_of_mem_replay hcandidate with hnil | ⟨m, hmem, hid⟩
    · exact absurd hnil List.not_mem_nil
    · obtain ⟨entry, hentry, hm⟩ := List.mem_map.1 hmem
      have hlt := (h.fits entry hentry).id_lt
      rw [← mapNumbers_id reread, hm] at hlt
      dsimp only
      rw [hid]
      exact hlt

theorem restart (h : Ledger env shown world) (hlasting : Lasting sha256 serde world)
    (hserde : serde.Sound reread) {config : Config} {draw : StartDraw}
    (hrestart : world.restart sha256 env serde verify config draw = some next) :
    Ledger env shown next := by
  unfold World.restart at hrestart
  split at hrestart
  case h_1 =>
    split_ifs at hrestart
    cases hrestart
    exact new config draw
  case h_2 conn leaves hstorage =>
    split at hrestart
    case h_2 => cases hrestart
    case h_1 sequencer hstart =>
      cases hrestart
      obtain ⟨scan, session, signedRoot, nodes, accounts, hstarted, rfl⟩ := withDb_eq_ok.1 hstart
      exact h.started hlasting hserde hstorage hstarted

end Ledger

/-- A sequencer that has written nothing yet to its file. -/
def World.blank (config : Config) (draw : StartDraw) : World :=
  let state := Sequencer.new config draw
  ⟨{ state with feed := { state.feed with storage := .disk ⟨[], [], none, none, []⟩ 0 } }, []⟩

theorem World.blank_restart {config : Config} {draw : StartDraw} {sequencer : Sequencer}
    (h : withDb sha256 env serde verify config .empty draw = .ok sequencer) :
    (World.blank config draw).restart sha256 env serde verify config draw =
      some ⟨sequencer, []⟩ := by
  have hfile : withDb sha256 env serde verify config
      (fileOf ⟨[], [], none, none, []⟩ []) draw = .ok sequencer := h
  unfold World.restart World.blank
  dsimp only [Sequencer.new]
  rw [hfile]

theorem Lasting.blank (config : Config) (draw : StartDraw) :
    Lasting sha256 serde (World.blank config draw) where
  rising := List.Pairwise.nil
  taken := fun _ h => absurd h List.not_mem_nil
  counted := le_rfl
  windows := ⟨(newest_nil _).symm, (newest_nil _).symm, rfl⟩
  chain := rfl
  tree := .disk _ _ (Or.inl rfl)
  table := fun _ _ h => by cases h; rfl
  holdable := ⟨Nat.zero_lt_succ _, Nat.succ_le_succ (Nat.zero_le _)⟩

namespace Ledger

theorem blank (config : Config) (draw : StartDraw) :
    Ledger env shown (World.blank config draw) where
  pins := ⟨Nat.zero_le _, fun _ => ⟨[], rfl, rfl, fresh_nil _, fun _ h => absurd h List.not_mem_nil⟩⟩
  session := fun _ _ _ h => absurd rfl h
  authored := fun _ h => absurd h List.not_mem_nil
  fits := fun _ h => absurd h List.not_mem_nil
  nonces := rfl
  spent := fresh_nil _
  inbox := rfl
  paired := fresh_nil _
  table := fun _ _ h => by cases h; rfl
  opened := fun _ h => absurd h List.not_mem_nil

theorem start (hserde : serde.Sound reread)
    (h : World.Starts sha256 env serde verify world) : Ledger env shown world := by
  cases h with
  | memory config draw _ => exact new config draw
  | disk config draw sequencer hstart =>
      exact (blank config draw).restart (Lasting.blank config draw) hserde
        (World.blank_restart hstart)

theorem step (h : Ledger env shown world) (hlasting : Lasting sha256 serde world)
    (hserde : serde.Sound reread) (hevent : event.Holdable) (hshows : event.Shows shown)
    (hstep : world.step sha256 env serde verify event = some next) (hnext : next.Holdable) :
    Ledger env shown next := by
  cases step_stepped hstep with
  | idle left _ hidle =>
      cases hidle with
      | same => exact h
      | pinned signed key _ hauthorised hpin =>
          refine h.of_frame ?_ (h.pins.pinned hauthorised hpin) (fun _ _ => hpin.mono) ?_
          · rw [hpin.feed_eq]
          · rw [hpin.frame]
            exact h.opened
  | sequenced group after outcome head hgroup hsequenced =>
      exact h.sequenced hlasting hevent hshows hgroup head hsequenced hnext
  | restarted config draw _ _ hrestart => exact h.restart hlasting hserde hrestart

end Ledger

theorem World.Reaches.ledger (hserde : serde.Sound reread)
    (h : World.Reaches sha256 env serde verify (fun _ event => event.Shows shown) world) :
    Ledger env shown world := by
  induction h with
  | start hstart => exact .start hserde hstart
  | step hreaches hshows hevent hstep hnext ih =>
      exact ih.step hreaches.lasting hserde hevent hshows hstep hnext

end Feed
end VerifiableExchange

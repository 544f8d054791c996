import VerifiableExchange.Feed.Ledger
import VerifiableExchange.Feed.NoGap
import VerifiableExchange.Inbox.Terms

/-!
# Cancels — who takes an order off the book

The generator cancels the orders on its own list, and a start reads that list back out of every
stored message. No order an account signed is cancelled by anybody else as long as no start takes one
on the list.
-/

namespace VerifiableExchange
namespace Feed

open Lib Merkle Logchain Inbox Wire

variable {sha256 : Bytes → Hash} {env : Primitives} {serde : Wire.Serde} {reread : F64 → F64}
  {verify : Bytes → Bytes → Bytes → Bool} {world next : World} {event : Event}

/-! ## The law -/

/-- The order with this id was published, and nobody signed it. -/
def Unclaimed (log : List Entry) (id : OrderId) : Prop :=
  ∃ entry ∈ log, ∃ m, entry.2 = .new m ∧ m.nonce = none ∧ m.id = id

/-- No message that a start takes on the generator's list carries a nonce. -/
def TakesUpUnsigned (opened : List OpenOrder) : List OrderMessage → Prop
  | [] => True
  | msg :: rest =>
      (takesUp opened msg = true → msg.nonce = none) ∧
        TakesUpUnsigned (replayIntoTheOpenOrders opened msg) rest

/-- A start on a file takes no stored order on the list that carries a nonce. -/
def Event.LeavesSigned (serde : Wire.Serde) (world : World) : Event → Prop
  | restart _ _ =>
      match world.sequencer.feed.storage with
      | .memory _ => True
      | .disk conn _ =>
          TakesUpUnsigned [] (conn.messages.filterMap fun row => readMessage serde row.json)
  | _ => True

theorem TakesUpUnsigned.mem {msgs : List OrderMessage} {opened : List OpenOrder} {held : OpenOrder}
    (h : TakesUpUnsigned opened msgs) (hheld : held ∈ msgs.foldl replayIntoTheOpenOrders opened) :
    held ∈ opened ∨ ∃ m, OrderMessage.new m ∈ msgs ∧ m.nonce = none ∧ held.id = m.id := by
  induction msgs generalizing opened with
  | nil => exact Or.inl hheld
  | cons msg rest ih =>
      obtain ⟨hfirst, hrest⟩ := h
      rcases ih hrest hheld with hold | ⟨m, hmem, hm⟩
      · rcases mem_replayIntoTheOpenOrders hold with hopen | ⟨htakes, m, rfl, hid⟩
        · exact Or.inl hopen
        · exact Or.inr ⟨m, List.mem_cons_self, hfirst htakes, hid⟩
      · exact Or.inr ⟨m, List.mem_cons_of_mem _ hmem, hm⟩

/-! ## The list and the log -/

theorem Unclaimed.append {log : List Entry} {id : OrderId} (h : Unclaimed log id)
    (batch : List Entry) : Unclaimed (log ++ batch) id := by
  obtain ⟨entry, hentry, hm⟩ := h
  exact ⟨entry, List.mem_append_left _ hentry, hm⟩

/-- Every order on the list is one nobody signed, and so is every order a cancel without a nonce
names. -/
structure UnsignedOnly (world : World) : Prop where
  opened : ∀ held ∈ world.sequencer.openOrders, Unclaimed world.log held.id
  cancels : ∀ entry ∈ world.log, ∀ m, entry.2 = .cancel m → m.nonce = none →
    Unclaimed world.log m.targetId

/-- A cancel without a nonce takes back an order of the list, or one of its own group. -/
theorem Sourced.cancels {state : Sequencer} {group : Group} {entry : Entry} {m : CancelMessage}
    (h : Sourced env state event group entry) (hm : entry.2 = .cancel m) (hnonce : m.nonce = none) :
    ∃ held : OpenOrder, m.targetId = held.id ∧
      (held ∈ state.openOrders ∨ Unclaimed group.batch held.id) := by
  have hnone : entry.2.nonce = none := by
    rw [hm]
    exact hnonce
  cases h with
  | submission signed key hfrom =>
      obtain ⟨now, hmessage⟩ := hfrom.message_eq
      obtain ⟨nonce, hchecked⟩ := exists_nonce hfrom.authorised.valid
      rw [hmessage, messageFrom_nonce] at hnone
      rw [checkedNonce_eq_ok, hnone] at hchecked
      cases hchecked
  | operator req nonce now _ hmessage =>
      have hreq : entry.2 = req.message entry.2.id now.toNat := congrArg Prod.snd hmessage
      rw [hreq, SubmitOperatorRequest.message_nonce] at hnone
      cases hnone
  | generated timestamp _ hkind =>
      rcases hkind with ⟨held, hwhere, hcancel⟩ | ⟨new, hnew⟩
      · rw [hm, cancelOf] at hcancel
        refine ⟨held, congrArg CancelMessage.targetId (OrderMessage.cancel.inj hcancel), ?_⟩
        refine hwhere.imp_right fun ⟨other, hother, new, hnew, hunsigned, hid⟩ => ?_
        exact ⟨other, hother, new, hnew, hunsigned, hid.symm⟩
      · rw [hm] at hnew
        cases hnew.new

namespace UnsignedOnly

theorem sequenced (h : UnsignedOnly world) (hlasting : Lasting sha256 serde world)
    (hevent : event.Holdable) {group : Group}
    (hgroup : event.group env serde world.sequencer = some group) {after : Sequencer}
    {outcome : Except SequenceError Unit} (head : Option SignedTreeHead)
    (hsequenced : group.sequenced sha256 serde = .ok (after, outcome)) :
    UnsignedOnly ⟨{ after with feed := { after.feed with treeHead := head } },
      world.log ++ group.published sha256 serde⟩ := by
  have htook := Event.group_took hgroup
  have hkept := Event.group_kept hgroup
  obtain ⟨hids, -⟩ := hlasting.group_ids hevent hgroup
  obtain ⟨hcases, -, hopened, hfilter⟩ := Group.sequenced_cases (textsOf serde world.log)
    (htook.storage_eq ▸ hlasting.tree) hsequenced
  -- Without the group in the log, no order of the group may be on the list.
  have unpublished (herror : group.published sha256 serde = [])
      (hgone : ∀ held ∈ after.openOrders,
        group.state.feed.checkRetentionBatch group.batch = .ok () → Unclaimed group.batch held.id →
          False) :
      UnsignedOnly ⟨{ after with feed := { after.feed with treeHead := head } },
        world.log ++ group.published sha256 serde⟩ := by
    rw [herror, List.append_nil]
    refine ⟨fun held hheld => ?_, h.cancels⟩
    rcases hkept.opened held (hopened held hheld) with
      hold | ⟨hguard, entry, hentry, m, hm, hnonce, hid⟩
    · exact h.opened held hold
    · exact (hgone held hheld hguard ⟨entry, hentry, m, hm, hnonce, hid.symm⟩).elim
  generalize hfeed : after.feed = feed at hcases
  cases hcases with
  | nothing hnil =>
      rw [← hfeed]
      refine unpublished (by rw [Group.published_of_ok hsequenced, hnil]) ?_
      rintro held - - ⟨entry, hentry, -⟩
      rw [hnil] at hentry
      cases hentry
  | refused detail hrefused =>
      rw [← hfeed]
      refine unpublished (Group.published_of_error hsequenced) fun held _ hguard => ?_
      rw [hrefused] at hguard
      cases hguard
  | notWritten first count lastId reason _ hfirst =>
      have hbound := hfilter count lastId reason rfl
      rw [hfeed] at hbound
      rw [← hfeed]
      refine unpublished (Group.published_of_error hsequenced) ?_
      rintro held hheld - ⟨entry, hentry, m, hm, -, hid⟩
      have hmem : entry.2.id ∈ idsOf group.batch := List.mem_map_of_mem hentry
      have hheldId : held.id < first.2.id := hbound held hheld
      rw [hids, hm] at hmem
      rw [← hid, hlasting.first_id hevent hgroup hfirst] at hheldId
      exact absurd (List.mem_range'_1.1 hmem).1 (Nat.not_le.2 hheldId)
  | written storage hne hguard hwrote hkeeps =>
      rw [Group.published_of_ok hsequenced]
      have hlist : ∀ held : OpenOrder, held ∈ world.sequencer.openOrders ∨
          Unclaimed group.batch held.id → Unclaimed (world.log ++ group.batch) held.id := by
        rintro held (hold | ⟨entry, hentry, hm⟩)
        · exact (h.opened held hold).append _
        · exact ⟨entry, List.mem_append_right _ hentry, hm⟩
      refine ⟨fun held hheld => hlist held ?_, fun entry hentry m hm hnonce => ?_⟩
      · refine (hkept.opened held (hopened held hheld)).imp_right ?_
        exact fun ⟨_, entry, hentry, m, hm, hnonce, hid⟩ => ⟨entry, hentry, m, hm, hnonce, hid.symm⟩
      · rcases List.mem_append.1 hentry with hold | hnew
        · exact (h.cancels entry hold m hm hnonce).append _
        · obtain ⟨held, htarget, hwhere⟩ :=
            (Event.group_sourced hgroup entry hnew).cancels hm hnonce
          rw [htarget]
          exact hlist held hwhere

theorem restart (h : UnsignedOnly world) (hlasting : Lasting sha256 serde world)
    (hserde : serde.Sound reread) (hfits : ∀ entry ∈ world.log, Fits entry.2) {config : Config}
    {draw : StartDraw} (hleaves : (Event.restart config draw).LeavesSigned serde world)
    (hrestart : world.restart sha256 env serde verify config draw = some next) :
    UnsignedOnly next := by
  unfold World.restart at hrestart
  unfold Event.LeavesSigned at hleaves
  split at hrestart
  case h_1 =>
    split_ifs at hrestart
    cases hrestart
    exact ⟨fun _ h => absurd h List.not_mem_nil, fun _ h => absurd h List.not_mem_nil⟩
  case h_2 conn leaves hstorage =>
    rw [hstorage] at hleaves
    dsimp only at hleaves
    split at hrestart
    case h_2 => cases hrestart
    case h_1 sequencer hstart =>
      cases hrestart
      obtain ⟨scan, session, signedRoot, nodes, accounts, hstarted, rfl⟩ := withDb_eq_ok.1 hstart
      obtain ⟨-, hscan⟩ := hlasting.scanned hstorage hstarted.scan_eq
      have hlength : world.log.length = (linksOf sha256 serde world.log).length :=
        (length_linksOf world.log).symm
      have hread := filterMap_readMessage hserde hlength hfits
      have htable : (conn.messages.filterMap fun row => readMessage serde row.json) =
          world.log.map fun entry => mapNumbers reread entry.2 := by
        rw [hlasting.table conn leaves hstorage, ← hread, List.filterMap_map]
        rfl
      rw [htable] at hleaves
      refine ⟨fun held hheld => ?_, h.cancels⟩
      obtain ⟨candidate, hcandidate, rfl⟩ := List.mem_map.1 hheld
      rw [hscan.candidates, hread] at hcandidate
      rcases hleaves.mem hcandidate with hnil | ⟨m, hmem, hnonce, hid⟩
      · exact absurd hnil List.not_mem_nil
      · -- What was read back has the id and the nonce of what was written.
        obtain ⟨entry, hentry, hm⟩ := List.mem_map.1 hmem
        obtain ⟨written, hwritten⟩ : ∃ written, entry.2 = .new written := by
          cases hentry2 : entry.2 with
          | new written => exact ⟨written, rfl⟩
          | cancel | engineRule | listSymbol | delistSymbol =>
              rw [hentry2] at hm
              cases hm
        rw [hwritten] at hm
        cases hm
        exact ⟨entry, hentry, written, hwritten, hnonce, hid.symm⟩

end UnsignedOnly

namespace Sample

/-- The world after one signed cancel, under a serde that reads what it has written. -/
noncomputable def written : World :=
  (openedWorld.step sum32 signatures .exact (fun _ _ _ => true) (.submit firstCancel calm)).getD
    openedWorld

end Sample

namespace Sample

/-- A resting order an account signed, at 25 and for 1. -/
def signedOrder : SignedSubmission where
  submission := Inbox.Sample.order
  publicKey := accountKey
  signature :=
    "dd5c631f577dca676183a9b944caf7d9f7d57337c3668268c8356090029aba44" ++
      "5c6136deb24ead006fd9dfd555700a25bbb59daf845c7dd0ded18deee6fabd03"

/-- The third-party functions at the values the order gives them. -/
def orderSignature : Primitives where
  sha256 := fun _ => []
  isVerifyingKey := fun key => Operator.fromHex 32 accountKey.toList = some key
  verifyStrict := fun key statement signature =>
    Operator.fromHex 32 accountKey.toList = some key &&
      (statement = "exchange-account-order-v3\n00112233aabbccdd\n3\nETH-USDC\nBuy\n2500\n10\nLimit\nGoodTillCancel\nfalse\n202122232425262728292a2b2c2d2e2f" &&
        Operator.fromHex 64 signedOrder.signature.toList = some signature)
  canonicalBytes := fun _ => []

/-- The serde at the one message these runs write and read. -/
def orderText : Wire.Serde where
  number := fun x => if x = F64.ofNat 25 then utf8 "25.0" else utf8 "1.0"
  parse := fun text =>
    let value := messageValue (messageFrom 1 1000 signedOrder.submission)
    if text = JsonValue.print (fun x => if x = F64.ofNat 25 then utf8 "25.0" else utf8 "1.0") value
    then some value else none

/-- What the key of these runs has signed. -/
def signedBy (key statement signature : Bytes) : Bool :=
  key = config.signingKey.verifyingKey && signature = config.signingKey.sign statement

def started : Option World :=
  (withDb sum32 orderSignature orderText signedBy config .empty startDraw).toOption.map
    fun sequencer => ⟨sequencer, []⟩

def stepped (event : Event) (world : Option World) : Option World :=
  world.bind fun world => world.step sum32 orderSignature orderText signedBy event

def ordered : Option World := stepped (.submit signedOrder calm) started

def restarted : Option World := stepped (.restart config startDraw) ordered

/-- The length of a log and the next id, where there is a world. -/
def counts (world : Option World) : Option (Nat × OrderId) :=
  world.map fun world => (world.log.length, world.sequencer.feed.nextId)

end Sample

end Feed
end VerifiableExchange

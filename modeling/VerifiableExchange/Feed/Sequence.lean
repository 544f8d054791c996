import VerifiableExchange.Feed.Publish
import VerifiableExchange.Feed.Sequencer
import VerifiableExchange.Lib.Window

/-!
# One group, said once

Everything a call of `sequence` can do to the published state: which rows a published group adds to
the tables, which keys it spends, and what a refused group leaves behind.
-/

namespace VerifiableExchange
namespace Feed

open Lib Merkle Logchain

/-! ## What a group is made of -/

section

variable (serde : Wire.Serde)

def rowOf (entry : Entry) : Published := ⟨entry.2.id, Wire.messageText serde entry.2⟩

/-- The bytes of a group, in its order. -/
def textsOf (batch : List Entry) : List Bytes :=
  batch.map fun entry => Wire.messageText serde entry.2

def rowsOf (batch : List Entry) : List Published := batch.map (rowOf serde)

end

def idsOf (batch : List Entry) : List OrderId := batch.map fun entry => entry.2.id

/-- The nonces a group spends, with the id each of them is spent on. -/
def nonceUses (batch : List Entry) : List (NonceKey × OrderId) :=
  batch.filterMap fun entry => (nonceKey entry.2).map fun key => (key, entry.2.id)

/-- The entries of the separate service a group fulfils. -/
def inboxUses (batch : List Entry) : List (InboxKey × OrderId) :=
  batch.filterMap fun entry => entry.1.map fun key => (key, entry.2.id)

/-- The rows a group adds to `feed_messages`. -/
def messageRows (rows : List Published) (chains : List Chain) : List MessageRow :=
  (rows.zip chains).map fun row => ⟨idAsI64 row.1.id, row.1.json, row.2⟩

/-- The rows a group adds to `inbox_sequenced`. -/
def inboxRows (batch : List Entry) : List InboxRow :=
  (inboxUses batch).map fun use => ⟨use.1, idAsI64 use.2⟩

variable {sha256 : Bytes → Hash} {serde : Wire.Serde} {published : List Bytes}

theorem rowsOf_json (batch : List Entry) :
    (rowsOf serde batch).map Published.json = textsOf serde batch := by
  rw [rowsOf, textsOf, List.map_map]
  rfl

@[simp] theorem length_rowsOf (batch : List Entry) : (rowsOf serde batch).length = batch.length :=
  List.length_map _

@[simp] theorem length_textsOf (batch : List Entry) : (textsOf serde batch).length = batch.length :=
  List.length_map _

@[simp] theorem length_idsOf (batch : List Entry) : (idsOf batch).length = batch.length :=
  List.length_map _

theorem nonceUses_append (log batch : List Entry) :
    nonceUses (log ++ batch) = nonceUses log ++ nonceUses batch := List.filterMap_append

theorem inboxUses_append (log batch : List Entry) :
    inboxUses (log ++ batch) = inboxUses log ++ inboxUses batch := List.filterMap_append

theorem map_fst_nonceUses (batch : List Entry) :
    (nonceUses batch).map Prod.fst = batch.filterMap fun entry => nonceKey entry.2 := by
  rw [nonceUses, List.map_filterMap]
  exact List.filterMap_congr fun entry _ => by cases nonceKey entry.2 <;> rfl

theorem map_fst_inboxUses (batch : List Entry) :
    (inboxUses batch).map Prod.fst = batch.filterMap Prod.fst := by
  rw [inboxUses, List.map_filterMap]
  exact List.filterMap_congr fun entry _ => by cases entry.1 <;> rfl

theorem serialize_text (batch : List Entry) :
    serialize (fun msg => .ok (Wire.messageText serde msg)) batch = .ok (rowsOf serde batch) := by
  induction batch with
  | nil => rfl
  | cons entry rest ih =>
      rw [serialize] at ih ⊢
      rw [List.mapM_cons, ih]
      rfl

theorem length_chainsAfter (rows : List Published) (chain : Chain) :
    (chainsAfter sha256 chain rows).length = rows.length := by
  induction rows generalizing chain with
  | nil => rfl
  | cons row rest ih => simp only [chainsAfter, List.length_cons, ih]

theorem chainsAfter_append (rows more : List Published) (chain : Chain) :
    chainsAfter sha256 chain (rows ++ more) =
      chainsAfter sha256 chain rows ++
        chainsAfter sha256 ((chainsAfter sha256 chain rows).getLastD chain) more := by
  induction rows generalizing chain with
  | nil => rfl
  | cons row rest ih =>
      rw [List.cons_append, chainsAfter, chainsAfter, ih]
      rw [List.cons_append, List.getLastD_cons]

theorem getLastD_chainsAfter (rows more : List Published) (chain : Chain) :
    (chainsAfter sha256 chain (rows ++ more)).getLastD chain =
      (chainsAfter sha256 ((chainsAfter sha256 chain rows).getLastD chain) more).getLastD
        ((chainsAfter sha256 chain rows).getLastD chain) := by
  rw [chainsAfter_append]
  rcases (chainsAfter sha256 ((chainsAfter sha256 chain rows).getLastD chain) more).eq_nil_or_concat
    with hnil | ⟨front, last, hlast⟩
  · rw [hnil, List.append_nil]
    rfl
  · rw [hlast, List.concat_eq_append, ← List.append_assoc, List.getLastD_concat,
      List.getLastD_concat]

/-! ## The guard -/

namespace FeedState

/-- The keys of a group may all be added. -/
def Admits {K : Type} (known : AList fun _ : K => OrderId) (limit : Nat) (fresh keys : List K) :
    Prop :=
  (∀ key ∈ keys, key ∉ known ∧ key ∉ fresh) ∧ keys.Nodup ∧
    (keys = [] ∨ fresh.length + keys.length ≤ limit - known.entries.length)

section

variable {K : Type} {known : AList fun _ : K => OrderId} {limit : Nat}
  {repeated exhausted : String} {fresh keys : List K}

theorem admits_cons {key : K} :
    Admits known limit fresh (key :: keys) ↔
      (key ∉ known ∧ key ∉ fresh ∧ fresh.length + 1 ≤ limit - known.entries.length) ∧
        Admits known limit (key :: fresh) keys := by
  simp only [Admits, forall_eq_or_imp, List.nodup_cons, List.mem_cons, not_or, List.length_cons,
    reduceCtorEq, false_or]
  constructor
  · rintro ⟨⟨⟨hknown, hfresh⟩, hrest⟩, ⟨hkey, hnodup⟩, hroom⟩
    refine ⟨⟨hknown, hfresh, by omega⟩, fun other hother => ?_, hnodup, Or.inr (by omega)⟩
    refine ⟨(hrest other hother).1, ?_, (hrest other hother).2⟩
    rintro rfl
    exact hkey hother
  · rintro ⟨⟨hknown, hfresh, hroom⟩, hrest, hnodup, hmore⟩
    refine ⟨⟨⟨hknown, hfresh⟩, fun other hother => ?_⟩, ⟨fun hkey => (hrest key hkey).2.1 rfl,
      hnodup⟩, ?_⟩
    · exact ⟨(hrest other hother).1, (hrest other hother).2.2⟩
    · rcases hmore with rfl | hmore
      · rw [List.length_nil]
        omega
      · omega

theorem addKey_eq_ok [DecidableEq K] {key : Option K} {next : List K} :
    addKey known limit repeated exhausted fresh key = .ok next ∧ Admits known limit next keys ↔
      next = key.toList ++ fresh ∧ Admits known limit fresh (key.toList ++ keys) := by
  cases key with
  | none =>
      simp only [addKey, Except.ok.injEq, Option.toList_none, List.nil_append]
      exact ⟨fun ⟨hsame, h⟩ => ⟨hsame.symm, hsame ▸ h⟩, fun ⟨hsame, h⟩ => ⟨hsame.symm, hsame ▸ h⟩⟩
  | some key =>
      simp only [addKey, Option.toList_some, List.singleton_append, admits_cons]
      split_ifs with hseen hfull
      · simp only [false_and, false_iff]
        rintro ⟨-, ⟨hknown, hfresh, -⟩, -⟩
        exact hseen.elim hknown hfresh
      · simp only [false_and, false_iff]
        rintro ⟨-, ⟨-, -, hroom⟩, -⟩
        omega
      · obtain ⟨hknown, hfresh⟩ := not_or.1 hseen
        simp only [Except.ok.injEq]
        constructor
        · rintro ⟨rfl, h⟩
          exact ⟨rfl, ⟨hknown, hfresh, by omega⟩, h⟩
        · rintro ⟨rfl, -, h⟩
          exact ⟨rfl, h⟩

end

/-- The guard passes exactly the groups whose keys are new, distinct and within their limits. -/
theorem checkKeys_eq_ok {state : FeedState} {batch : List Entry} {nonces : List NonceKey}
    {inbox : List InboxKey} :
    state.checkKeys batch nonces inbox = .ok () ↔
      Admits state.nonces state.retentionLimits.maxNonces nonces
          (batch.filterMap fun entry => nonceKey entry.2) ∧
        Admits state.inboxSequenced state.retentionLimits.maxInboxRecords inbox
          (batch.filterMap Prod.fst) := by
  induction batch generalizing nonces inbox with
  | nil => simp [checkKeys, Admits]
  | cons entry rest ih =>
      obtain ⟨key, msg⟩ := entry
      have hnonce : ((key, msg) :: rest).filterMap (fun entry : Entry => nonceKey entry.2) =
          (nonceKey msg).toList ++ rest.filterMap fun entry => nonceKey entry.2 := by
        rw [List.filterMap_cons]
        cases nonceKey msg <;> rfl
      have hinbox : ((key, msg) :: rest).filterMap Prod.fst =
          key.toList ++ rest.filterMap Prod.fst := by
        rw [List.filterMap_cons]
        cases key <;> rfl
      rw [hnonce, hinbox, checkKeys]
      constructor
      · intro h
        obtain ⟨nonces', hnonces, h⟩ := bind_eq_ok.1 h
        obtain ⟨inbox', hinboxes, h⟩ := bind_eq_ok.1 h
        obtain ⟨hmore, hmore'⟩ := ih.1 h
        exact ⟨(addKey_eq_ok.1 ⟨hnonces, hmore⟩).2, (addKey_eq_ok.1 ⟨hinboxes, hmore'⟩).2⟩
      · rintro ⟨hnonces, hinboxes⟩
        obtain ⟨hnonces, hmore⟩ := addKey_eq_ok.2 ⟨rfl, hnonces⟩
        obtain ⟨hinboxes, hmore'⟩ := addKey_eq_ok.2 ⟨rfl, hinboxes⟩
        exact bind_eq_ok.2 ⟨_, hnonces, bind_eq_ok.2 ⟨_, hinboxes, ih.2 ⟨hmore, hmore'⟩⟩⟩

theorem checkRetentionBatch_eq_ok {state : FeedState} {batch : List Entry} :
    state.checkRetentionBatch batch = .ok () ↔
      batch.length ≤ state.retentionLimits.maxBatchMessages ∧
        (state.storage.isMemory = true →
          batch.length ≤ state.retentionLimits.maxMemoryMessages - state.storage.leaves) ∧
        Admits state.nonces state.retentionLimits.maxNonces []
          (batch.filterMap fun entry => nonceKey entry.2) ∧
        Admits state.inboxSequenced state.retentionLimits.maxInboxRecords []
          (batch.filterMap Prod.fst) := by
  rw [checkRetentionBatch]
  split_ifs with hbatch hmemory
  · simp only [false_iff, not_and]
    omega
  · simp only [false_iff, not_and]
    intro _ hroom
    have := hroom hmemory.1
    omega
  · rw [checkKeys_eq_ok]
    constructor
    · intro h
      refine ⟨by omega, fun hm => ?_, h⟩
      by_contra hless
      exact hmemory ⟨hm, by omega⟩
    · rintro ⟨-, -, h⟩
      exact h

theorem checkRetentionGrowth_eq_ok {state : FeedState} {messages nonces inbox : Nat} :
    state.checkRetentionGrowth messages nonces inbox = .ok () ↔
      messages ≤ state.retentionLimits.maxBatchMessages ∧
        (state.storage.isMemory = true →
          messages ≤ state.retentionLimits.maxMemoryMessages - state.storage.leaves) ∧
        nonces ≤ state.retentionLimits.maxNonces - state.nonces.entries.length ∧
        inbox ≤ state.retentionLimits.maxInboxRecords - state.inboxSequenced.entries.length := by
  rw [checkRetentionGrowth]
  split_ifs with hbatch hmemory hnonces hinbox
  · simp only [false_iff, not_and]
    omega
  · simp only [false_iff, not_and]
    intro _ hroom
    have := hroom hmemory.1
    omega
  · simp only [false_iff, not_and]
    omega
  · simp only [false_iff, not_and]
    omega
  · simp only [true_iff]
    refine ⟨by omega, fun hm => ?_, by omega, by omega⟩
    by_contra hless
    exact hmemory ⟨hm, by omega⟩

end FeedState

/-! ## What the tables gain -/

theorem Keeps.nodes_eq {storage : Storage} {conn : Database} {leaves : Nat}
    (h : Keeps sha256 storage published) (hstorage : storage = .disk conn leaves) :
    published = [] ∨ conn.nodes = storedRows sha256 published := by
  cases h with
  | memory => cases hstorage
  | disk _ _ hnodes =>
      cases hstorage
      exact hnodes

theorem zip_rowsOf (batch : List Entry) (chains : List Chain) :
    batch.zip ((rowsOf serde batch).zip chains) =
      (batch.zip chains).map fun row => (row.1, rowOf serde row.1, row.2) := by
  induction batch generalizing chains with
  | nil => rfl
  | cons entry rest ih =>
      cases chains with
      | nil => rfl
      | cons chain chains =>
          rw [rowsOf] at ih ⊢
          simp only [List.map_cons, List.zip_cons_cons, ih]

/-- The inserts that went through. -/
theorem insertEntries_eq_ok {conn conn' : Database} {rows : List (Entry × Chain)}
    (h : (rows.map fun row => (row.1, rowOf serde row.1, row.2)).foldlM insertEntry conn =
      .ok conn') :
    conn' = { conn with
      messages := conn.messages ++ rows.map fun row =>
        ⟨idAsI64 row.1.2.id, Wire.messageText serde row.1.2, row.2⟩
      inboxSequenced := conn.inboxSequenced ++ inboxRows (rows.map Prod.fst) } := by
  induction rows generalizing conn with
  | nil =>
      cases h
      simp [inboxRows, inboxUses]
  | cons row rest ih =>
      rw [List.map_cons, List.foldlM_cons] at h
      obtain ⟨next, hnext, h⟩ := bind_eq_ok.1 h
      rw [ih h]
      rw [insertEntry] at hnext
      obtain ⟨inserted, hmessage, hnext⟩ := bind_eq_ok.1 hnext
      rw [insertMessage] at hmessage
      split_ifs at hmessage
      cases hmessage
      obtain ⟨⟨key, msg⟩, chain⟩ := row
      cases key with
      | none =>
          cases hnext
          simp [inboxRows, inboxUses, rowOf]
      | some key =>
          dsimp only at hnext
          rw [insertInbox] at hnext
          split_ifs at hnext
          cases hnext
          simp [inboxRows, inboxUses, rowOf]

/-- The database after a group is in it. -/
def Database.added (sha256 : Bytes → Hash) (serde : Wire.Serde) (conn : Database)
    (key : SigningKey) (session : String) (chain : Chain) (published : List Bytes)
    (batch : List Entry) : Database :=
  let chains := chainsAfter sha256 chain (rowsOf serde batch)
  let texts := published ++ textsOf serde batch
  { messages := conn.messages ++ messageRows (rowsOf serde batch) chains
    inboxSequenced := conn.inboxSequenced ++ inboxRows batch
    session := some session
    checkpoint := some (Checkpoint.row key session ((idsOf batch).getLastD 0)
      (chains.getLastD chain) (treeHash sha256 texts))
    nodes := storedRows sha256 texts }

theorem transaction_eq_ok {conn conn' : Database} {key : SigningKey} {session : String}
    {lastId : OrderId} {chain last : Chain} {batch : List Entry}
    (hnodes : published = [] ∨ conn.nodes = storedRows sha256 published)
    (hid : (idsOf batch).getLastD 0 = lastId)
    (hlast : (chainsAfter sha256 chain (rowsOf serde batch)).getLastD chain = last)
    (h : transaction sha256 key session lastId last published.length
      ((textsOf serde batch).map (leafHash sha256))
      (batch.zip ((rowsOf serde batch).zip (chainsAfter sha256 chain (rowsOf serde batch)))) conn =
        .ok conn') :
    conn' = conn.added sha256 serde key session chain published batch := by
  rw [transaction, zip_rowsOf] at h
  obtain ⟨inserted, hinserted, h⟩ := bind_eq_ok.1 h
  have hrows := insertEntries_eq_ok hinserted
  have hbefore : (if published.length = 0 then [] else inserted.nodes) =
      storedRows sha256 published := by
    rcases hnodes with rfl | hnodes
    · rfl
    · split_ifs with hzero
      · rw [List.length_eq_zero_iff.1 hzero]
        rfl
      · rw [hrows, ← hnodes]
  obtain ⟨written, happend, -⟩ := append_eq sha256 published (textsOf serde batch)
  have hlength : published.length + ((textsOf serde batch).map (leafHash sha256)).length =
      (published ++ textsOf serde batch).length := by
    rw [List.length_map, List.length_append]
  have hroot : root sha256 (Nodes.disk (storedRows sha256 (published ++ textsOf serde batch))
      (published ++ textsOf serde batch).length).source (published ++ textsOf serde batch).length =
      .ok (treeHash sha256 (published ++ textsOf serde batch)) := by
    rw [root, (holds_disk sha256 (published ++ textsOf serde batch)).mth_eq le_rfl,
      List.take_length]
  simp only [hbefore, happend, hlength, hroot, bind, Except.bind, pure, Except.pure,
    Except.ok.injEq] at h
  rw [← h, hrows, Database.added, hid, hlast]
  have hlen : batch.length ≤ (chainsAfter sha256 chain (rowsOf serde batch)).length := by
    rw [length_chainsAfter, length_rowsOf]
  have hzip : messageRows (rowsOf serde batch) (chainsAfter sha256 chain (rowsOf serde batch)) =
      (batch.zip (chainsAfter sha256 chain (rowsOf serde batch))).map fun row =>
        ⟨idAsI64 row.1.2.id, Wire.messageText serde row.1.2, row.2⟩ := by
    rw [messageRows, rowsOf, List.zip_map_left, List.map_map]
    rfl
  rw [hzip, List.map_fst_zip hlen]

/-! ## What the published state gains -/

namespace FeedState

/-- The published state after a group is in it. -/
def appended (sha256 : Bytes → Hash) (serde : Wire.Serde) (feed : FeedState) (batch : List Entry)
    (storage : Storage) : FeedState :=
  let chains := chainsAfter sha256 feed.chain (rowsOf serde batch)
  { (batch.zip ((rowsOf serde batch).zip chains)).foldl record
      { feed with chain := chains.getLastD feed.chain } with
    storage := storage }

/-- A record touches the window and the two maps. -/
theorem record_eq (feed : FeedState) (row : Entry × Published × Chain) :
    feed.record row = { feed with
      messages := (feed.record row).messages
      chains := (feed.record row).chains
      nonces := spend feed.nonces (nonceUses [row.1])
      inboxSequenced := spend feed.inboxSequenced (inboxUses [row.1]) } := by
  have hnonces : (feed.record row).nonces = spend feed.nonces (nonceUses [row.1]) := by
    rw [record, pushWindow, nonceUses]
    cases hkey : nonceKey row.1.2 <;> split_ifs <;> simp [hkey, spend]
  have hinbox : (feed.record row).inboxSequenced =
      spend feed.inboxSequenced (inboxUses [row.1]) := by
    rw [record, pushWindow, inboxUses]
    cases hkey : row.1.1 <;> split_ifs <;> simp [hkey, spend]
  rw [← hnonces, ← hinbox, record, pushWindow]
  split_ifs <;> rfl

theorem foldl_record_eq (rows : List (Entry × Published × Chain)) (feed : FeedState) :
    rows.foldl record feed = { feed with
      messages := (rows.foldl record feed).messages
      chains := (rows.foldl record feed).chains
      nonces := spend feed.nonces (nonceUses (rows.map Prod.fst))
      inboxSequenced := spend feed.inboxSequenced (inboxUses (rows.map Prod.fst)) } := by
  induction rows generalizing feed with
  | nil => rfl
  | cons row rest ih =>
      have hnonces : nonceUses ((row :: rest).map Prod.fst) =
          nonceUses [row.1] ++ nonceUses (rest.map Prod.fst) := by
        rw [← nonceUses_append]
        rfl
      have hinbox : inboxUses ((row :: rest).map Prod.fst) =
          inboxUses [row.1] ++ inboxUses (rest.map Prod.fst) := by
        rw [← inboxUses_append]
        rfl
      rw [List.foldl_cons, ih, record_eq, hnonces, hinbox, spend_append, spend_append]

section

variable (feed : FeedState) (batch : List Entry) (storage : Storage)

theorem appended_eq : feed.appended sha256 serde batch storage = { feed with
    messages := (feed.appended sha256 serde batch storage).messages
    chains := (feed.appended sha256 serde batch storage).chains
    chain := (chainsAfter sha256 feed.chain (rowsOf serde batch)).getLastD feed.chain
    nonces := spend feed.nonces (nonceUses batch)
    inboxSequenced := spend feed.inboxSequenced (inboxUses batch)
    storage := storage } := by
  have hfst : (batch.zip ((rowsOf serde batch).zip
      (chainsAfter sha256 feed.chain (rowsOf serde batch)))).map Prod.fst = batch := by
    apply List.map_fst_zip
    rw [List.length_zip, length_chainsAfter, length_rowsOf, min_self]
  rw [appended, foldl_record_eq, hfst]

@[simp] theorem appended_nextId : (feed.appended sha256 serde batch storage).nextId = feed.nextId := by
  rw [appended_eq]

@[simp] theorem appended_session :
    (feed.appended sha256 serde batch storage).session = feed.session := by
  rw [appended_eq]

@[simp] theorem appended_signingKey :
    (feed.appended sha256 serde batch storage).signingKey = feed.signingKey := by
  rw [appended_eq]

@[simp] theorem appended_retentionLimits :
    (feed.appended sha256 serde batch storage).retentionLimits = feed.retentionLimits := by
  rw [appended_eq]

@[simp] theorem appended_storage : (feed.appended sha256 serde batch storage).storage = storage := by
  rw [appended_eq]

@[simp] theorem appended_treeHead :
    (feed.appended sha256 serde batch storage).treeHead = feed.treeHead := by
  rw [appended_eq]

@[simp] theorem appended_chain : (feed.appended sha256 serde batch storage).chain =
    (chainsAfter sha256 feed.chain (rowsOf serde batch)).getLastD feed.chain := by
  rw [appended_eq]

@[simp] theorem appended_nonces : (feed.appended sha256 serde batch storage).nonces =
    spend feed.nonces (nonceUses batch) := by
  rw [appended_eq]

@[simp] theorem appended_inboxSequenced :
    (feed.appended sha256 serde batch storage).inboxSequenced =
      spend feed.inboxSequenced (inboxUses batch) := by
  rw [appended_eq]

end

/-- The window holds the newest of these messages and of these chain values. -/
structure Windows (feed : FeedState) (rows : List Published) (links : List Chain) : Prop where
  messages : feed.messages = newest MESSAGE_WINDOW rows
  chains : feed.chains = newest MESSAGE_WINDOW links
  length : rows.length = links.length

namespace Windows

variable {feed : FeedState} {rows : List Published} {links : List Chain}

theorem record (h : Windows feed rows links) (row : Entry × Published × Chain) :
    Windows (feed.record row) (rows ++ [row.2.1]) (links ++ [row.2.2]) := by
  have hsame : (newest MESSAGE_WINDOW links).length = (newest MESSAGE_WINDOW rows).length := by
    rw [length_newest, length_newest, h.length]
  refine ⟨?_, ?_, by rw [List.length_append, List.length_append, h.length]; rfl⟩
  · rw [FeedState.record, pushWindow, newest_concat (by decide), h.messages]
    split_ifs <;> rfl
  · rw [FeedState.record, pushWindow, newest_concat (by decide), h.messages, h.chains, hsame]
    split_ifs <;> rfl

theorem foldl_record (h : Windows feed rows links) (added : List (Entry × Published × Chain)) :
    Windows (added.foldl FeedState.record feed) (rows ++ added.map fun row => row.2.1)
      (links ++ added.map fun row => row.2.2) := by
  induction added generalizing feed rows links with
  | nil => simpa using h
  | cons row rest ih => simpa using ih (h.record row)

/-- A group moves the window on to its newest messages. -/
theorem appended (h : Windows feed rows links) (sha256 : Bytes → Hash) (serde : Wire.Serde)
    (batch : List Entry) (storage : Storage) :
    Windows (feed.appended sha256 serde batch storage) (rows ++ rowsOf serde batch)
      (links ++ chainsAfter sha256 feed.chain (rowsOf serde batch)) := by
  have hlength : (chainsAfter sha256 feed.chain (rowsOf serde batch)).length =
      (rowsOf serde batch).length := length_chainsAfter _ _
  have hbatch : (rowsOf serde batch).length = batch.length := length_rowsOf batch
  have hmoved : Windows { feed with
      chain := (chainsAfter sha256 feed.chain (rowsOf serde batch)).getLastD feed.chain } rows links :=
    ⟨h.messages, h.chains, h.length⟩
  have hzip := hmoved.foldl_record
      (batch.zip ((rowsOf serde batch).zip (chainsAfter sha256 feed.chain (rowsOf serde batch))))
  have hsnd : (batch.zip ((rowsOf serde batch).zip
      (chainsAfter sha256 feed.chain (rowsOf serde batch)))).map Prod.snd =
      (rowsOf serde batch).zip (chainsAfter sha256 feed.chain (rowsOf serde batch)) := by
    apply List.map_snd_zip
    rw [List.length_zip]
    omega
  have hmessages : (batch.zip ((rowsOf serde batch).zip
      (chainsAfter sha256 feed.chain (rowsOf serde batch)))).map (fun row => row.2.1) =
      rowsOf serde batch := by
    have hcomp := congrArg (List.map Prod.fst) hsnd
    rw [List.map_map, List.map_fst_zip (by omega)] at hcomp
    exact hcomp
  have hchains : (batch.zip ((rowsOf serde batch).zip
      (chainsAfter sha256 feed.chain (rowsOf serde batch)))).map (fun row => row.2.2) =
      chainsAfter sha256 feed.chain (rowsOf serde batch) := by
    have hcomp := congrArg (List.map Prod.snd) hsnd
    rw [List.map_map, List.map_snd_zip (by omega)] at hcomp
    exact hcomp
  rw [hmessages, hchains] at hzip
  exact ⟨hzip.messages, hzip.chains, hzip.length⟩

end Windows

/-! ## The outcomes -/

/-- The storage after a group is in it. -/
inductive Wrote (sha256 : Bytes → Hash) (serde : Wire.Serde) (feed : FeedState)
    (published : List Bytes) (batch : List Entry) : Storage → Prop
  | memory (before after : MerkleTree) :
      feed.storage = .memory before → Wrote sha256 serde feed published batch (.memory after)
  | disk (conn : Database) :
      feed.storage = .disk conn published.length →
      Wrote sha256 serde feed published batch
        (.disk (conn.added sha256 serde feed.signingKey feed.session feed.chain published batch)
          (published ++ textsOf serde batch).length)

/-- The state and the answer a group leaves, over what was published before it. -/
inductive Sequenced (sha256 : Bytes → Hash) (serde : Wire.Serde) (feed : FeedState)
    (published : List Bytes) (batch : List Entry) : FeedState → Except SequenceError Unit → Prop
  | nothing : batch = [] → Sequenced sha256 serde feed published batch feed (.ok ())
  | refused (detail : String) :
      feed.checkRetentionBatch batch = .error detail →
      Sequenced sha256 serde feed published batch feed (.error (.retention detail))
  | notWritten (first : Entry) (count : Nat) (lastId : OrderId) (reason : Unreadable) :
      feed.checkRetentionBatch batch = .ok () → batch.head? = some first →
      Sequenced sha256 serde feed published batch { feed with nextId := first.2.id }
        (.error (.notWritten count lastId reason))
  | written (storage : Storage) :
      batch ≠ [] → feed.checkRetentionBatch batch = .ok () →
      Wrote sha256 serde feed published batch storage →
      Keeps sha256 storage (published ++ textsOf serde batch) →
      Sequenced sha256 serde feed published batch (feed.appended sha256 serde batch storage)
        (.ok ())

/-- A group never stops the process, and one of the four outcomes is what it has. -/
theorem sequence_cases {feed : FeedState} (serde : Wire.Serde) (h : Keeps sha256 feed.storage published)
    (batch : List Entry) (commits : Bool) :
    ∃ feed' outcome,
      feed.sequence sha256 (fun msg => .ok (Wire.messageText serde msg)) batch commits =
        .ok (feed', outcome) ∧
      Sequenced sha256 serde feed published batch feed' outcome := by
  cases batch with
  | nil => exact ⟨feed, .ok (), rfl, .nothing rfl⟩
  | cons first rest =>
      rw [FeedState.sequence]
      cases hguard : feed.checkRetentionBatch (first :: rest) with
      | error detail => exact ⟨feed, _, rfl, .refused detail hguard⟩
      | ok =>
          rw [serialize_text]
          dsimp only
          have hleaves : (rowsOf serde (first :: rest)).map (fun row => leafHash sha256 row.json) =
              (textsOf serde (first :: rest)).map (leafHash sha256) := by
            rw [← rowsOf_json, List.map_map]
            rfl
          rw [hleaves]
          rcases h.write_cases commits feed.signingKey feed.session _ _ _
            (textsOf serde (first :: rest)) with ⟨e, hrefused⟩ | ⟨before, after, hwritten, hgrown, hkeeps⟩
          · rw [hrefused]
            exact ⟨_, _, rfl, .notWritten first _ _ e hguard rfl⟩
          · rw [hwritten]
            simp only [hgrown, bind, Except.bind]
            refine ⟨_, _, rfl, .written after (List.cons_ne_nil _ _) hguard ?_ hkeeps⟩
            cases hstorage : feed.storage with
            | memory tree =>
                rw [hstorage, Storage.write] at hwritten
                cases hwritten
                obtain ⟨grown, -, hgrown⟩ := bind_eq_ok.1 hgrown
                cases hgrown
                exact .memory tree grown hstorage
            | disk conn leaves =>
                obtain rfl : leaves = published.length := by
                  rw [← h.leaves_eq, hstorage]
                  rfl
                rw [hstorage, Storage.write] at hwritten
                split_ifs at hwritten
                obtain ⟨conn', htransaction, hbefore⟩ := bind_eq_ok.1 hwritten
                cases hbefore
                cases hgrown
                have hnodes := h.nodes_eq hstorage
                have hid : (idsOf (first :: rest)).getLastD 0 =
                    ((first :: rest).map fun entry => entry.2.id).getLastD first.2.id := by
                  rw [idsOf, List.map_cons, List.getLastD_cons, List.getLastD_cons]
                rw [transaction_eq_ok hnodes hid rfl htransaction]
                rw [List.length_map, ← List.length_append]
                exact .disk conn hstorage

end FeedState

end Feed
end VerifiableExchange

import VerifiableExchange.Feed.Restart
import VerifiableExchange.Feed.Sequence

/-!
# Start — what a file that is accepted looks like

The pass over the rows said once, for any content of the tables: the ids, the links, the spent nonces
and the window it arrives at. From it, what the sequencer that comes up holds.
-/

namespace VerifiableExchange
namespace Feed

open Lib Merkle Logchain Inbox

/-! ## The pass -/

/-- A row, as the message it holds. -/
def FileRow.found (row : FileRow) : Published := ⟨row.id.toNat, row.json.getD []⟩

/-- The nonce a stored message spends, read out of its bytes. -/
def storedUse (serde : Wire.Serde) (row : FileRow) : Option (NonceKey × OrderId) :=
  match Wire.envelope serde (row.json.getD []) with
  | .error _ => none
  | .ok fields => do
      let nonce ← fields.nonce
      let account ← fields.account
      let bytes ← Operator.canonicalNonce nonce
      return ((account, bytes), fields.id)

/-- What the pass has checked and kept of the rows so far. -/
structure Scanned (sha256 : Bytes → Hash) (serde : Wire.Serde) (config : Config) (leaves : Nat)
    (read : List FileRow) (scan : Scan) : Prop where
  count : scan.count = read.length
  ids : read.map FileRow.id = (List.range' 1 read.length).map Int.ofNat
  texts : ∀ row ∈ read, row.json = some row.found.json
  rows : scan.rows = (read.zip (chainsAfter sha256 EMPTY_CHAIN (read.map FileRow.found))).map
    fun row => ⟨row.1.id, row.1.found.json, row.2⟩
  messages : scan.messages = newest MESSAGE_WINDOW (read.map FileRow.found)
  chains : scan.chains =
    newest MESSAGE_WINDOW (chainsAfter sha256 EMPTY_CHAIN (read.map FileRow.found))
  chain : scan.chain =
    (chainsAfter sha256 EMPTY_CHAIN (read.map FileRow.found)).getLastD EMPTY_CHAIN
  links : scan.firstBadLink = none → read.map FileRow.chain =
    (chainsAfter sha256 EMPTY_CHAIN (read.map FileRow.found)).map fun link => some link.toList
  stored : leaves ≤ read.length → scan.chainAtStored =
    (chainsAfter sha256 EMPTY_CHAIN ((read.map FileRow.found).take leaves)).getLastD EMPTY_CHAIN
  claimed : ∀ row ∈ read, ∃ fields, Wire.envelope serde row.found.json = .ok fields ∧
    fields.id = row.found.id
  fresh : Fresh (∅ : AList fun _ : NonceKey => OrderId)
    ((read.filterMap (storedUse serde)).map Prod.fst)
  nonces : scan.nonces = spend ∅ (read.filterMap (storedUse serde))
  room : scan.nonces.entries.length ≤ config.limits.maxNonces
  candidates : scan.candidates =
    (read.filterMap fun row => Wire.readMessage serde row.found.json).foldl
      replayIntoTheOpenOrders []

namespace Scanned

variable {sha256 : Bytes → Hash} {serde : Wire.Serde} {config : Config} {leaves : Nat}
  {read : List FileRow} {scan next : Scan} {row : FileRow}

theorem start : Scanned sha256 serde config leaves [] Scan.start where
  count := rfl
  ids := rfl
  texts := fun _ h => absurd h List.not_mem_nil
  rows := rfl
  messages := newest_nil _ |>.symm
  chains := newest_nil _ |>.symm
  chain := rfl
  links := fun _ => rfl
  stored := fun _ => by
    rw [List.map_nil, List.take_nil]
    rfl
  claimed := fun _ h => absurd h List.not_mem_nil
  fresh := fresh_nil _
  nonces := rfl
  room := Nat.zero_le _
  candidates := rfl

theorem pushBounded_newest {α : Type} (all : List α) (a : α) :
    pushBounded (newest MESSAGE_WINDOW all) a = newest MESSAGE_WINDOW (all ++ [a]) := by
  rw [newest_concat (by decide), pushBounded]
  split_ifs <;> rfl

/-- A nonce of a row is new, and there is room for it. -/
theorem scanNonce_eq_ok {nonces spent : AList fun _ : NonceKey => OrderId} {id : OrderId}
    {fields : Wire.Envelope} (row : FileRow) (hfields : Wire.envelope serde row.found.json = .ok fields)
    (hid : fields.id = id) (h : scanNonce config nonces id fields = .ok spent) :
    (storedUse serde row = none ∧ spent = nonces) ∨
      ∃ key, storedUse serde row = some (key, id) ∧ key ∉ nonces ∧ spent = nonces.insert key id ∧
        nonces.entries.length < config.limits.maxNonces := by
  have huse : storedUse serde row = fields.nonce.bind fun nonce => fields.account.bind fun account =>
      (Operator.canonicalNonce nonce).bind fun bytes => some ((account, bytes), fields.id) := by
    unfold storedUse
    rw [show row.json.getD [] = row.found.json from rfl, hfields]
    rfl
  rw [huse, hid]
  rw [scanNonce] at h
  split at h
  case h_1 hnone =>
    cases h
    exact Or.inl ⟨by rw [hnone]; rfl, rfl⟩
  case h_2 nonce hnonce =>
    split at h
    case h_2 => cases h
    case h_1 account bytes haccount hbytes =>
      split at h
      case h_1 => cases h
      case h_2 hunspent =>
        split_ifs at h with hroom
        cases h
        refine Or.inr ⟨(account, bytes), ?_, AList.lookup_eq_none.1 hunspent, rfl, by omega⟩
        rw [hnonce, haccount]
        simp [hbytes]

theorem concat (h : Scanned sha256 serde config leaves read scan)
    (hrow : scanRow sha256 serde config leaves scan row = .ok next) :
    Scanned sha256 serde config leaves (read ++ [row]) next := by
  unfold scanRow at hrow
  obtain ⟨json, hjson, hrow⟩ := bind_eq_ok.1 hrow
  dsimp only at hrow
  obtain ⟨_, hid, hrow⟩ := bind_eq_ok.1 hrow
  cases hfields : Wire.envelope serde json with
  | error => simp [hfields, bind, Except.bind] at hrow
  | ok fields =>
  rw [hfields] at hrow
  dsimp only at hrow
  obtain ⟨_, hsame, hrow⟩ := bind_eq_ok.1 hrow
  cases hsame
  obtain ⟨_, hclaimed, hrow⟩ := bind_eq_ok.1 hrow
  obtain ⟨spent, hspent, hrow⟩ := bind_eq_ok.1 hrow
  rw [orFail_eq_ok] at hjson
  rw [require_eq_ok] at hid hclaimed
  have hfound : row.found.json = json := by rw [FileRow.found, hjson]; rfl
  have hrowid : row.id = ((read.length + 1 : Nat) : Int) := by
    rw [h.count] at hid
    split_ifs at hid
    omega
  have hpos : 0 ≤ row.id := by omega
  rw [if_pos hpos] at hclaimed hspent
  have hfoundid : row.found.id = row.id.toNat := rfl
  have hmap : (read ++ [row]).map FileRow.found = read.map FileRow.found ++ [row.found] := by
    rw [List.map_append, List.map_singleton]
  have hchain : extendBytes sha256 scan.chain json =
      extendBytes sha256 ((chainsAfter sha256 EMPTY_CHAIN (read.map FileRow.found)).getLastD
        EMPTY_CHAIN) row.found.json := by
    rw [h.chain, hfound]
  have hlinks : chainsAfter sha256 EMPTY_CHAIN ((read ++ [row]).map FileRow.found) =
      chainsAfter sha256 EMPTY_CHAIN (read.map FileRow.found) ++
        [extendBytes sha256 scan.chain json] := by
    rw [hmap, chainsAfter_append, hchain]
    rfl
  have hlength : read.length =
      (chainsAfter sha256 EMPTY_CHAIN (read.map FileRow.found)).length := by
    rw [length_chainsAfter, List.length_map]
  have hkey := scanNonce_eq_ok row (hfound ▸ hfields) hclaimed hspent
  cases hrow
  constructor
  case count =>
    dsimp only
    rw [h.count, List.length_append, List.length_singleton]
  case ids =>
    rw [List.map_append, h.ids, List.length_append, List.length_singleton, List.range'_concat,
      List.map_append, List.map_singleton, List.map_singleton, hrowid, Nat.one_mul, Nat.add_comm]
    rfl
  case texts =>
    intro other hother
    rcases List.mem_append.1 hother with hold | hnew
    · exact h.texts other hold
    · rw [List.mem_singleton.1 hnew, hfound, hjson]
  case rows =>
    dsimp only
    rw [hlinks, List.zip_append hlength, List.map_append, h.rows, ← hfound]
    rfl
  case messages =>
    dsimp only
    rw [h.messages, pushBounded_newest, hmap, FileRow.found, hjson, if_pos hpos]
    rfl
  case chains =>
    dsimp only
    rw [h.chains, pushBounded_newest, hlinks]
  case chain =>
    dsimp only
    rw [hlinks, List.getLastD_concat]
  case links =>
    dsimp only
    intro hgood
    split_ifs at hgood with hbad
    rw [hlinks, List.map_append, List.map_append, h.links hgood, List.map_singleton,
      List.map_singleton]
    rw [hgood, eq_self_iff_true, true_and, not_not] at hbad
    rw [hbad]
  case stored =>
    dsimp only
    intro hleaves
    rw [List.length_append, List.length_singleton] at hleaves
    rw [h.count]
    split_ifs with hnow
    · have hall : ((read ++ [row]).map FileRow.found).take leaves =
          (read ++ [row]).map FileRow.found := by
        rw [List.take_of_length_le]
        rw [List.length_map, List.length_append, List.length_singleton]
        omega
      rw [hall, hlinks, List.getLastD_concat]
    · have hle : leaves ≤ read.length := by omega
      rw [h.stored hle, hmap, List.take_append_of_le_length (by rwa [List.length_map])]
  case claimed =>
    intro other hother
    rcases List.mem_append.1 hother with hold | hnew
    · exact h.claimed other hold
    · rw [List.mem_singleton.1 hnew]
      exact ⟨fields, hfound ▸ hfields, hclaimed⟩
  case fresh =>
    rw [List.filterMap_append, List.map_append]
    rcases hkey with ⟨hnone, -⟩ | ⟨key, huse, hnew, -, -⟩
    · rw [List.filterMap_cons_none hnone]
      simpa using h.fresh
    · rw [List.filterMap_cons_some huse]
      refine ⟨fun _ _ => AList.notMem_empty _, List.nodup_append'.2 ⟨h.fresh.nodup,
        List.nodup_singleton _, ?_⟩⟩
      rw [List.filterMap_nil, List.map_singleton, List.disjoint_singleton]
      intro hmem
      obtain ⟨use, hbefore, rfl⟩ := List.mem_map.1 hmem
      refine hnew ?_
      have hlookup := (lookup_spend h.fresh use.1 use.2).2 (Or.inr hbefore)
      rw [← h.nonces] at hlookup
      exact AList.lookup_isSome.1 (by rw [hlookup]; rfl)
  case nonces =>
    dsimp only
    rw [List.filterMap_append, spend_append, ← h.nonces]
    rcases hkey with ⟨hnone, hsame⟩ | ⟨key, huse, -, hspent, -⟩
    · rw [List.filterMap_cons_none hnone, hsame]
      rfl
    · rw [List.filterMap_cons_some huse, hspent]
      rfl
  case room =>
    dsimp only
    rcases hkey with ⟨-, hsame⟩ | ⟨key, -, hnew, hspent, hroom⟩
    · rw [hsame]
      exact h.room
    · rw [hspent, AList.insert_of_notMem hnew]
      exact hroom
  case candidates =>
    dsimp only
    rw [List.filterMap_append, List.foldl_append, ← h.candidates]
    cases hmessage : Wire.readMessage serde json with
    | none => rw [List.filterMap_cons_none (by rw [hfound]; exact hmessage)]; rfl
    | some message => rw [List.filterMap_cons_some (by rw [hfound]; exact hmessage)]; rfl

end Scanned

/-- The pass over a file, all of it. -/
theorem scanRows_scanned {sha256 : Bytes → Hash} {serde : Wire.Serde} {config : Config}
    {file : FeedFile} {scan : Scan} (h : scanRows sha256 serde config file = .ok scan) :
    Scanned sha256 serde config (storedLeaves file.nodes) (inIdOrder file.messages) scan := by
  have hall := foldlM_reads (Scanned sha256 serde config (storedLeaves file.nodes))
    (fun _ _ _ _ hscan hrow => hscan.concat hrow) (inIdOrder file.messages) [] Scan.start scan
    .start h
  rwa [List.nil_append] at hall

/-! ## The start -/

/-- The sequencer that comes up from what the checks arrived at. -/
def comesUp (config : Config) (file : FeedFile) (draw : StartDraw) (scan : Scan) (session : String)
    (nodes : List NodeRow) (accounts : AList fun _ : AccountId => Bytes) : Sequencer where
  feed := {
    retentionLimits := config.limits
    messages := scan.messages
    chains := scan.chains
    nextId := scan.count + 1
    session := session
    storage := .disk {
      messages := scan.rows
      inboxSequenced := file.inboxSequenced
      session := file.session
      checkpoint := file.checkpoint.bind id
      nodes := nodes } scan.count
    chain := scan.chain
    treeHead := none
    signingKey := config.signingKey
    inboxSequenced := file.inboxSequenced.foldl
      (fun pairs row => pairs.insert row.key (asU64 row.feedId)) ∅
    nonces := scan.nonces }
  maxAccounts := config.maxAccounts
  accounts := accounts
  accountRows := file.accounts
  operatorKey := config.operatorKey
  numAccounts := max config.numAccounts 1
  openOrders := scan.candidates.map fun held =>
    { held with expiresAtMs := saturatingAddU64 draw.now.toNat (draw.life held.id) }
  crossings := 0
  sinceCrossing := 0
  cancelsInARow := 0

/-- Everything a start has checked. -/
structure Started (sha256 : Bytes → Hash) (env : Primitives) (serde : Wire.Serde)
    (verify : Bytes → Bytes → Bytes → Bool) (config : Config) (file : FeedFile) (draw : StartDraw)
    (scan : Scan) (session : String) (signedRoot : Option Hash) (nodes : List NodeRow)
    (accounts : AList fun _ : AccountId => Bytes) : Prop where
  valid : config.valid = true
  answers : draw.answers = true
  accountRoom : file.accounts.length ≤ config.maxAccounts
  inboxRoom : file.inboxSequenced.length ≤ config.limits.maxInboxRecords
  scan_eq : scanRows sha256 serde config file = .ok scan
  checkpoint_eq : checkCheckpoint verify config.signingKey file scan.count scan.chain draw.session =
    .ok (session, signedRoot)
  links : scan.firstBadLink = none
  nodes_eq : restoreNodes sha256 file scan signedRoot = .ok nodes
  tree_eq : checkTree sha256 nodes scan.count signedRoot = .ok ()
  accounts_eq : readAccounts env.isVerifyingKey file.accounts = .ok accounts

/-- A start succeeds exactly when every check does. -/
theorem withDb_eq_ok {sha256 : Bytes → Hash} {env : Primitives} {serde : Wire.Serde}
    {verify : Bytes → Bytes → Bytes → Bool} {config : Config} {file : FeedFile} {draw : StartDraw}
    {sequencer : Sequencer} :
    withDb sha256 env serde verify config file draw = .ok sequencer ↔
      ∃ scan session signedRoot nodes accounts,
        Started sha256 env serde verify config file draw scan session signedRoot nodes accounts ∧
          sequencer = comesUp config file draw scan session nodes accounts := by
  constructor
  · intro h
    unfold withDb at h
    dsimp only at h
    obtain ⟨_, hvalid, h⟩ := bind_eq_ok.1 h
    obtain ⟨_, hanswers, h⟩ := bind_eq_ok.1 h
    obtain ⟨_, haccounts, h⟩ := bind_eq_ok.1 h
    obtain ⟨_, hinbox, h⟩ := bind_eq_ok.1 h
    obtain ⟨scan, hscan, h⟩ := bind_eq_ok.1 h
    obtain ⟨⟨session, signedRoot⟩, hcheckpoint, h⟩ := bind_eq_ok.1 h
    simp only [mapError_eq_ok, require_eq_ok] at hvalid hanswers haccounts hinbox hscan hcheckpoint
    cases hlinks : scan.firstBadLink with
    | some id => simp [hlinks] at h
    | none =>
        rw [hlinks] at h
        obtain ⟨nodes, hnodes, h⟩ := bind_eq_ok.1 h
        obtain ⟨_, htree, h⟩ := bind_eq_ok.1 h
        obtain ⟨accounts, hread, h⟩ := bind_eq_ok.1 h
        cases h
        exact ⟨scan, session, signedRoot, nodes, accounts, ⟨hvalid, hanswers, haccounts, hinbox, hscan,
          hcheckpoint, hlinks, hnodes, htree, mapError_eq_ok.1 hread⟩, rfl⟩
  · rintro ⟨scan, session, signedRoot, nodes, accounts, h, rfl⟩
    unfold withDb
    simp only [h.valid, h.answers, h.accountRoom, h.inboxRoom, h.scan_eq, h.checkpoint_eq, h.links,
      h.nodes_eq, h.tree_eq, h.accounts_eq, require, if_true, Except.mapError, bind, Except.bind,
      pure, Except.pure]
    rfl

end Feed
end VerifiableExchange

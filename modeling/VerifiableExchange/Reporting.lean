import VerifiableExchange.Merkle.Compare

/-!
# Reporting — how a check counts, and the tree walked beside the messages

A checker hashes the messages it is served into the tree, page by page, and compares the nodes each
page makes with the nodes the log serves for it. A node can cover many pages; it is compared on the
page whose leaf fills it.
-/

namespace VerifiableExchange
namespace Reporting

open Lib Merkle

/-- How many failures one check prints before it prints a count instead. -/
def FAILURES_SHOWN : Nat := 5

/-- The running count of one check: how many rows it read, and what failed. -/
structure Check where
  name : String
  checked : Nat
  failed : Nat
  failures : List String

namespace Check

def new (name : String) : Check := ⟨name, 0, 0, []⟩

def fail (check : Check) (message : String) : Check :=
  { check with
    failed := check.failed + 1
    failures :=
      if check.failures.length < FAILURES_SHOWN then check.failures ++ [message]
      else check.failures }

def passed (check : Check) : Prop := check.failed = 0

theorem failed_foldl_fail (messages : List String) (check : Check) :
    (messages.foldl fail check).failed = check.failed + messages.length := by
  induction messages generalizing check with
  | nil => rfl
  | cons message rest ih =>
      rw [List.foldl_cons, ih, List.length_cons]
      show check.failed + 1 + rest.length = _
      omega

end Check

/-! ## The walk -/

/-- One node as the log serves it. -/
structure TreeNode where
  level : Nat
  index : Nat
  hash : String
  deriving DecidableEq

/-- What the log answers when it is asked for the nodes of a page. -/
inductive TreeAnswer where
  | served (nodes : List TreeNode)
  | noSource
  | unreadable (reason : String)

def placeOf (node : TreeNode) : Nat ×ₗ Nat := toLex (node.level, node.index)

def storeNode (stored : NodeMap) (node : TreeNode) : NodeMap :=
  match Logchain.readHash node.hash with
  | some hash => stored.insert (placeOf node) hash
  | none => stored

/-- The nodes served, each place once with its last value. -/
def storedNodes (served : List TreeNode) : NodeMap := served.foldl storeNode SortedMap.empty

/-- The served nodes whose hash is not a hash. -/
def notHashes (served : List TreeNode) : List String :=
  served.filterMap (fun node =>
    match Logchain.readHash node.hash with
    | some _ => none
    | none => some
        (s!"the node the log serves at level {node.level} index {node.index} is '{node.hash}', " ++
          "which is not a 32-byte hash"))

structure TreeWalk where
  fold : RootFold
  /-- The nodes the messages of this page made. -/
  made : NodeMap
  check : Check
  /-- The first leaf of this page. -/
  pageFrom : Nat
  stopped : Bool
  noSource : Bool

namespace TreeWalk

variable (sha256 : Bytes → Hash)

def new (rootSizes : List Nat) : TreeWalk :=
  { fold := RootFold.new sha256 rootSizes
    made := SortedMap.empty
    check := Check.new "every stored node is the one the messages make"
    pageFrom := 0
    stopped := false
    noSource := false }

/-- Hashes one message into the tree and keeps the nodes it made. -/
def feed (walk : TreeWalk) (bytes : Bytes) : Except (Fault Empty) TreeWalk := do
  let pageFrom := if walk.made.isEmpty then walk.fold.leaves else walk.pageFrom
  let (nodes, fold) ← walk.fold.pushEntry sha256 bytes
  return { walk with
    fold := fold
    made := nodes.foldl (fun made node => made.insert (toLex (node.1, node.2.1)) node.2.2) walk.made
    pageFrom := pageFrom }

def wantsNodes (walk : TreeWalk) : Bool := !walk.stopped && !walk.noSource

/-- What the comparison of this page reports. -/
def pageFaults (walk : TreeWalk) (served : List TreeNode) : List String :=
  compareNodes walk.made (storedNodes served) walk.pageFrom walk.fold.leaves

def page (walk : TreeWalk) (served : List TreeNode) : TreeWalk :=
  let read := (notHashes served).foldl Check.fail walk.check
  { walk with
    check := (walk.pageFaults served).foldl Check.fail
      { read with checked := read.checked + walk.made.size }
    made := SortedMap.empty }

/-- A page adds its unreadable nodes and the comparison's faults to what failed. -/
theorem failed_page (walk : TreeWalk) (served : List TreeNode) :
    (walk.page served).check.failed =
      walk.check.failed + (notHashes served).length + (walk.pageFaults served).length := by
  rw [page, Check.failed_foldl_fail]
  show ((notHashes served).foldl Check.fail walk.check).failed + _ = _
  rw [Check.failed_foldl_fail]

def withoutSource (walk : TreeWalk) : TreeWalk :=
  { walk with noSource := true, made := SortedMap.empty }

def unreadable (walk : TreeWalk) (reason : String) : TreeWalk :=
  let failed :=
    ({ walk.check with checked := walk.check.checked + 1 } : Check).fail
      (reason ++ ". The nodes between this log's messages and the root it signs are what every " ++
        "inclusion proof is built out of, and a log that will not serve them cannot be shown to " ++
        "hold the tree its messages make")
  { walk with
    stopped := true
    check := if walk.stopped then walk.check else failed
    made := SortedMap.empty }

/-- One page of the history: its messages, and then the nodes the log serves for them. The
comparison's faults come beside the walk. -/
def walkPage (ask : Nat → Nat → TreeAnswer) (walk : TreeWalk) (entries : List Bytes) :
    Except (Fault Empty) (List String × TreeWalk) := do
  let leavesFrom := walk.fold.leaves
  let walk ← entries.foldlM (feed sha256) walk
  if walk.wantsNodes ∧ 0 < entries.length then
    match ask leavesFrom entries.length with
    | .served nodes => return (walk.pageFaults nodes, walk.page nodes)
    | .noSource => return ([], walk.withoutSource)
    | .unreadable reason => return ([], walk.unreadable reason)
  else return ([], walk)

/-- The whole history, page after page. -/
def walkPages (ask : Nat → Nat → TreeAnswer) (walk : TreeWalk) :
    List (List Bytes) → Except (Fault Empty) (List (List String) × TreeWalk)
  | [] => return ([], walk)
  | entries :: rest => do
      let (faults, walk) ← walkPage sha256 ask walk entries
      let (more, walk) ← walkPages ask walk rest
      return (faults :: more, walk)

/-! ## What the walk holds between two messages -/

variable {sha256 : Bytes → Hash} {entries : List Bytes}

/-- The fold is over all the entries, and the nodes kept are those filled from leaf `start` on. -/
structure Follows (sha256 : Bytes → Hash) (entries : List Bytes) (start : Nat) (walk : TreeWalk) :
    Prop where
  fold : FoldHolds sha256 entries walk.fold
  start_le : start ≤ entries.length
  made : ∀ level index, walk.made.get? (toLex (level, index)) =
    if start < (index + 1) * 2 ^ level ∧ (index + 1) * 2 ^ level ≤ entries.length then
      some (perfectHash sha256 entries level index)
    else none
  pageFrom : start < entries.length → walk.pageFrom = start
  wants : walk.wantsNodes = true

/-- The nodes of one entry, added to those kept. -/
theorem get?_foldl_made (places : List (Nat × Nat)) (hash : Nat → Nat → Hash) (made : NodeMap)
    (level index : Nat) :
    ((places.map (fun place => (place.1, place.2, hash place.1 place.2))).foldl
        (fun made node => made.insert (toLex (node.1, node.2.1)) node.2.2) made).get?
        (toLex (level, index)) =
      if (level, index) ∈ places then some (hash level index)
      else made.get? (toLex (level, index)) := by
  rw [List.foldl_map]
  have hkeys := SortedMap.get?_foldl_insert_keys
    (fun place : Nat ×ₗ Nat => hash (ofLex place).1 (ofLex place).2)
    (k := toLex (level, index)) (places.map toLex) made
  rw [List.foldl_map] at hkeys
  have hmem : toLex (level, index) ∈ places.map toLex ↔ (level, index) ∈ places := by
    rw [List.mem_map]
    exact ⟨fun ⟨_, hplace, heq⟩ => toLex_inj.1 heq ▸ hplace, fun hplace => ⟨_, hplace, rfl⟩⟩
  by_cases hplace : (level, index) ∈ places
  · rw [if_pos hplace]
    exact hkeys.1 (hmem.2 hplace)
  · rw [if_neg hplace]
    exact hkeys.2 (mt hmem.1 hplace)

/-- One message of a page. -/
theorem Follows.feed {start : Nat} {walk : TreeWalk} (h : Follows sha256 entries start walk)
    (entry : Bytes) :
    ∃ walk', walk.feed sha256 entry = .ok walk' ∧
      Follows sha256 (entries ++ [entry]) start walk' ∧ walk'.check = walk.check := by
  obtain ⟨fold', hpush, -, hholds⟩ := h.fold.pushEntry entry
  have hlength : (entries ++ [entry]).length = entries.length + 1 := by
    rw [List.length_append, List.length_singleton]
  -- A page has kept a node exactly when one of its messages has been fed.
  have hempty : walk.made.isEmpty = true ↔ ¬start < entries.length := by
    rw [SortedMap.isEmpty_iff]
    constructor
    · intro hnone hlt
      have hleaf := h.made 0 start
      rw [hnone, if_pos (by rw [Nat.pow_zero]; omega)] at hleaf
      cases hleaf
    · intro hstart place
      have hplace := h.made (ofLex place).1 (ofLex place).2
      rw [if_neg (by omega)] at hplace
      exact hplace
  have hfeed : walk.feed sha256 entry = .ok { walk with
      fold := fold'
      made := ((appendedAt entries.length).map (fun place => (place.1, place.2,
        perfectHash sha256 (entries ++ [entry]) place.1 place.2))).foldl
          (fun made node => made.insert (toLex (node.1, node.2.1)) node.2.2) walk.made
      pageFrom := if walk.made.isEmpty then walk.fold.leaves else walk.pageFrom } := by
    rw [TreeWalk.feed, hpush]
    rfl
  refine ⟨_, hfeed, ?_, rfl⟩
  refine ⟨hholds, hlength ▸ Nat.le_succ_of_le h.start_le, fun level index => ?_, fun _ => ?_,
    h.wants⟩
  · have hpow : 0 < (index + 1) * 2 ^ level := Nat.mul_pos (Nat.succ_pos _) (Nat.two_pow_pos _)
    have hle := h.start_le
    rw [get?_foldl_made, hlength]
    simp only [mem_appendedAt]
    by_cases hnew : (index + 1) * 2 ^ level = entries.length + 1
    · rw [if_pos hnew, if_pos ⟨by omega, by omega⟩]
    · rw [if_neg hnew, h.made]
      by_cases hfull : (index + 1) * 2 ^ level ≤ entries.length
      · have hsame : perfectHash sha256 entries level index =
            perfectHash sha256 (entries ++ [entry]) level index :=
          (perfectHash_append hfull [entry]).symm
        rw [hsame]
        exact if_congr (by omega) rfl rfl
      · rw [if_neg (by omega), if_neg (by omega)]
  · show (if walk.made.isEmpty then walk.fold.leaves else walk.pageFrom) = start
    by_cases hstart : start < entries.length
    · rw [if_neg (fun hmade => hempty.1 hmade hstart)]
      exact h.pageFrom hstart
    · rw [if_pos (hempty.2 hstart), h.fold.leaves]
      exact le_antisymm (not_lt.1 hstart) h.start_le

/-- All the messages of a page. -/
theorem Follows.feedAll {start : Nat} {walk : TreeWalk} (h : Follows sha256 entries start walk)
    (new : List Bytes) :
    ∃ walk', new.foldlM (TreeWalk.feed sha256) walk = .ok walk' ∧
      Follows sha256 (entries ++ new) start walk' ∧ walk'.check = walk.check := by
  induction new generalizing entries walk with
  | nil => exact ⟨walk, rfl, by rwa [List.append_nil], rfl⟩
  | cons entry rest ih =>
      obtain ⟨fed, hfeed, hfollows, hcheck⟩ := h.feed entry
      obtain ⟨walk', hrest, hfollows', hcheck'⟩ := ih hfollows
      refine ⟨walk', ?_, by rwa [List.append_assoc] at hfollows', hcheck'.trans hcheck⟩
      rw [List.foldlM_cons, hfeed]
      exact hrest

/-- A page ends with no node kept. -/
theorem Follows.page {start : Nat} {walk : TreeWalk} (h : Follows sha256 entries start walk)
    (served : List TreeNode) :
    Follows sha256 entries entries.length (walk.page served) where
  fold := h.fold
  start_le := le_rfl
  made level index := by
    rw [if_neg (by omega)]
    rfl
  pageFrom hlt := absurd hlt (lt_irrefl _)
  wants := h.wants

theorem follows_new (sha256 : Bytes → Hash) (rootSizes : List Nat) :
    Follows sha256 [] 0 (TreeWalk.new sha256 rootSizes) where
  fold := foldHolds_new sha256 rootSizes
  start_le := le_rfl
  made level index := by
    rw [if_neg (fun hcond => absurd (hcond.1.trans_le hcond.2) (lt_irrefl _))]
    rfl
  pageFrom hlt := absurd hlt (lt_irrefl _)
  wants := rfl

end TreeWalk

/-! ## What a page sees -/

/-- At these leaves a log serves the nodes the entries make, and no others. -/
def HoldsAt (sha256 : Bytes → Hash) (entries : List Bytes) (served : List TreeNode)
    (start stop : Nat) : Prop :=
  ∀ leaf, start ≤ leaf → leaf < stop → ∀ level index hash, FilledBy level index leaf →
    ((storedNodes served).get? (toLex (level, index)) = some hash ↔
      (level, index, hash) ∈ madeAt sha256 entries leaf)

/-- The nodes served are of places a tree of 64-bit size can have. -/
def InRange (served : List TreeNode) : Prop :=
  ∀ node ∈ served, node.level < 64 ∧ node.index < 2 ^ 64

theorem get?_storeNode {stored : NodeMap} {node : TreeNode} {place : Nat ×ₗ Nat} {hash : Hash}
    (h : (storeNode stored node).get? place = some hash) :
    placeOf node = place ∧ Logchain.readHash node.hash = some hash ∨
      stored.get? place = some hash := by
  unfold storeNode at h
  split at h
  case h_1 hread =>
    rw [SortedMap.get?_insert] at h
    split at h
    case isTrue heq =>
      cases h
      exact .inl ⟨heq.symm, hread⟩
    case isFalse => exact .inr h
  case h_2 => exact .inr h

/-- A place that holds a node was served it. -/
theorem mem_of_stored {place : Nat ×ₗ Nat} {hash : Hash} : ∀ {served : List TreeNode}
    {stored : NodeMap}, (served.foldl storeNode stored).get? place = some hash →
      (∃ node ∈ served, placeOf node = place ∧ Logchain.readHash node.hash = some hash) ∨
        stored.get? place = some hash
  | [], _, h => .inr h
  | node :: rest, stored, h => by
      rcases @mem_of_stored _ _ rest _ h with ⟨later, hlater, hnode⟩ | hstored
      · exact .inl ⟨later, List.mem_cons_of_mem _ hlater, hnode⟩
      · exact (get?_storeNode hstored).imp_left (fun hnode => ⟨node, List.mem_cons_self, hnode⟩)

theorem contains_storeNode {stored : NodeMap} {place : Nat ×ₗ Nat}
    (h : stored.contains place = true) (node : TreeNode) :
    (storeNode stored node).contains place = true := by
  unfold storeNode
  split
  case h_1 hash _ =>
    rw [SortedMap.contains, SortedMap.get?_insert]
    split
    case isTrue => rfl
    case isFalse => exact h
  case h_2 => exact h

theorem contains_foldl_storeNode {place : Nat ×ₗ Nat} : ∀ {served : List TreeNode}
    {stored : NodeMap}, stored.contains place = true →
      (served.foldl storeNode stored).contains place = true
  | [], _, h => h
  | node :: rest, _, h => @contains_foldl_storeNode _ rest _ (contains_storeNode h node)

/-- A readable node that is served is stored. -/
theorem contains_of_served {node : TreeNode} {hash : Hash}
    (hread : Logchain.readHash node.hash = some hash) : ∀ {served : List TreeNode}
      {stored : NodeMap}, node ∈ served →
        (served.foldl storeNode stored).contains (placeOf node) = true
  | first :: rest, stored, h => by
      rcases List.mem_cons.1 h with rfl | h
      · refine @contains_foldl_storeNode _ rest _ ?_
        rw [storeNode, hread]
        simp [SortedMap.contains]
      · exact @contains_of_served _ _ hread rest _ h

/-- Where all the nodes served for a place agree, it holds what they say. -/
theorem get?_storedNodes {served : List TreeNode} {place : Nat ×ₗ Nat} {hash : Hash}
    (hsame : ∀ node ∈ served, placeOf node = place →
      ∀ hash', Logchain.readHash node.hash = some hash' → hash' = hash) :
    (storedNodes served).get? place = some hash ↔
      ∃ node ∈ served, placeOf node = place ∧ Logchain.readHash node.hash = some hash := by
  constructor
  · intro h
    exact (mem_of_stored h).resolve_right (fun hnone => nomatch hnone)
  · rintro ⟨node, hnode, rfl, hread⟩
    obtain ⟨hash', hget⟩ := SortedMap.contains_iff.1
      (@contains_of_served _ _ hread _ SortedMap.empty hnode)
    rcases mem_of_stored hget with ⟨other, hother, hplace, hread'⟩ | hnone
    · exact (hsame other hother hplace hash' hread') ▸ hget
    · exact nomatch hnone

theorem InRange.of_stored {served : List TreeNode} (h : InRange served) {level index : Nat}
    {hash : Hash} (hget : (storedNodes served).get? (toLex (level, index)) = some hash) :
    level < 64 ∧ index < 2 ^ 64 := by
  rcases mem_of_stored hget with ⟨node, hnode, heq, -⟩ | hnone
  · obtain ⟨rfl, rfl⟩ := Prod.mk.inj (toLex_inj.1 heq)
    exact h node hnode
  · exact nomatch hnone

/-- The comparison of a page is silent exactly where the log serves the page's own nodes. -/
theorem TreeWalk.Follows.pageFaults_eq_nil_iff {sha256 : Bytes → Hash} {entries : List Bytes}
    {start : Nat} {walk : TreeWalk} (h : Follows sha256 entries start walk)
    (hstart : start < entries.length) (hlen : entries.length < 2 ^ 64) {served : List TreeNode}
    (hserved : InRange served) :
    walk.pageFaults served = [] ↔ HoldsAt sha256 entries served start entries.length := by
  unfold TreeWalk.pageFaults
  rw [compareNodes_eq_nil_iff, h.pageFrom hstart, h.fold.leaves]
  constructor
  · intro hsame leaf hfrom hstop level index hash hfilled
    obtain ⟨hlevel, hindex⟩ := hfilled.lt (by omega)
    have hlast := (filledBy_iff hlevel hindex).1 hfilled
    have hplace := hsame (toLex (level, index)) ⟨hlast ▸ hfrom, hlast ▸ hstop⟩
    have hfill : (index + 1) * 2 ^ level = leaf + 1 := hfilled
    rw [← hplace, h.made, if_pos ⟨by omega, by omega⟩, mem_madeAt, Option.some_inj]
    exact ⟨fun heq => ⟨hfilled, heq.symm⟩, fun hmade => hmade.2.symm⟩
  · intro hholds place hcovered
    obtain ⟨⟨level, index⟩, rfl⟩ : ∃ pair : Nat × Nat, toLex pair = place := ⟨ofLex place, rfl⟩
    rw [h.made]
    have hstored := hholds (lastLeafUnder level index) hcovered.1 hcovered.2 level index
    by_cases hrange : level < 64 ∧ index < 2 ^ 64
    · -- A place the tree can have belongs to the leaf the comparison counts it under.
      have hfilled := (filledBy_iff hrange.1 hrange.2).2 rfl
      have hlast := lastLeafUnder_eq hrange.1 hrange.2
      obtain ⟨hfrom, hstop⟩ := hcovered
      have hfrom' : start ≤ lastLeafUnder level index := hfrom
      have hstop' : lastLeafUnder level index < entries.length := hstop
      rw [if_pos ⟨by omega, by omega⟩]
      refine ((hstored _ hfilled).2 ?_).symm
      exact mem_madeAt.2 ⟨hfilled, rfl⟩
    · -- Past it neither side holds a node.
      have hours : ¬(start < (index + 1) * 2 ^ level ∧ (index + 1) * 2 ^ level ≤ entries.length) := by
        intro hfull
        refine hrange (@FilledBy.lt _ _ ((index + 1) * 2 ^ level - 1) ?_ (by omega))
        unfold FilledBy
        omega
      rw [if_neg hours]
      cases hget : (storedNodes served).get? (toLex (level, index)) with
      | none => rfl
      | some hash => exact absurd (hserved.of_stored hget) hrange

/-- What a log answers for a range of leaves, when these are its stored rows there. -/
structure Serves (rows answer : List TreeNode) (start stop : Nat) : Prop where
  inRange : InRange answer
  same : ∀ leaf, start ≤ leaf → leaf < stop → ∀ level index, FilledBy level index leaf →
    (storedNodes answer).get? (toLex (level, index)) =
      (storedNodes rows).get? (toLex (level, index))

/-- A log that hands out all its rows. -/
theorem serves_self {rows : List TreeNode} (h : InRange rows) (start stop : Nat) :
    Serves rows rows start stop :=
  ⟨h, fun _ _ _ _ _ _ => rfl⟩

/-! ## A log that answers out of its table -/

/-- The rows of the table, with their bytes in hex. -/
def rowsOf (table : List NodeRow) : List TreeNode :=
  table.map (fun row => ⟨row.level, row.idx, Logchain.toHex row.hash⟩)

/-- The nodes of a window, with their hashes in hex. -/
def serve (nodes : List (Nat × Nat × Hash)) : List TreeNode :=
  nodes.map (fun node => ⟨node.1, node.2.1, Logchain.toHex node.2.2.toList⟩)

/-- Level and index are the primary key. -/
def PrimaryKey (table : List NodeRow) : Prop :=
  ∀ row ∈ table, selectHash table row.level row.idx = some row.hash

theorem readHash_toHex_bytes (bytes : Bytes) :
    Logchain.readHash (Logchain.toHex bytes) = rowHash bytes := by
  have hbytes := Logchain.hexBytes_toHex bytes
  unfold Logchain.readHash Logchain.toHex rowHash
  rw [String.toList_ofList]
  by_cases hlength : bytes.length = 32
  · have hread := Logchain.fromHex_toHex bytes
    rw [hlength] at hread
    rw [hread]
  · have hnone : Operator.fromHex 32 (Operator.toHex bytes) = none := by
      have hhex := Operator.length_hexBytes hbytes
      unfold Operator.fromHex
      exact if_neg (fun hcond => hlength (by omega))
    rw [hnone, dif_neg hlength]

theorem mem_of_selectHash {table : List NodeRow} {level index : Nat} {bytes : Bytes}
    (h : selectHash table level index = some bytes) :
    ∃ row ∈ table, row.level = level ∧ row.idx = index ∧ row.hash = bytes := by
  unfold selectHash at h
  obtain ⟨row, hfind, hhash⟩ := Option.map_eq_some_iff.1 h
  have hkey : row.level = level ∧ row.idx = index := by simpa using List.find?_some hfind
  exact ⟨row, List.mem_of_find?_eq_some hfind, hkey.1, hkey.2, hhash⟩

/-- A reader that has all the rows holds what the table holds. -/
theorem get?_rowsOf {table : List NodeRow} (hkey : PrimaryKey table) {level index : Nat}
    {hash : Hash} :
    (storedNodes (rowsOf table)).get? (toLex (level, index)) = some hash ↔
      (selectHash table level index).bind rowHash = some hash := by
  constructor
  · intro h
    rcases mem_of_stored h with ⟨node, hnode, hplace, hread⟩ | hnone
    · obtain ⟨row, hrow, rfl⟩ := List.mem_map.1 hnode
      obtain ⟨rfl, rfl⟩ := Prod.mk.inj (toLex_inj.1 hplace)
      rw [hkey row hrow, Option.bind_some, ← readHash_toHex_bytes]
      exact hread
    · exact nomatch hnone
  · intro h
    obtain ⟨bytes, hselect, hhash⟩ := Option.bind_eq_some_iff.1 h
    obtain ⟨row, hrow, rfl, rfl, rfl⟩ := mem_of_selectHash hselect
    refine (get?_storedNodes (fun node hnode hplace hash' hread => ?_)).2
      ⟨_, List.mem_map_of_mem hrow, rfl, (readHash_toHex_bytes _).trans hhash⟩
    -- Another row of this place would be the same row.
    obtain ⟨other, hother, rfl⟩ := List.mem_map.1 hnode
    obtain ⟨hlevel, hindex⟩ := Prod.mk.inj (toLex_inj.1 hplace)
    have hbytes := hkey other hother
    simp only at hlevel hindex
    rw [hlevel, hindex, hselect, Option.some_inj] at hbytes
    rw [readHash_toHex_bytes, ← hbytes, hhash] at hread
    exact (Option.some_inj.1 hread).symm

/-- A window serves the table's own rows for its leaves. -/
theorem serves_window {table : List NodeRow} (hkey : PrimaryKey table)
    (hrange : ∀ row ∈ table, row.level < 64 ∧ row.idx < 2 ^ 64) {leaves start count : Nat}
    {nodes : List (Nat × Nat × Hash)} (hcount : count ≤ MAX_NODE_LEAVES)
    (hleaves : start + count ≤ leaves) (h : window (.disk table leaves) start count = .ok nodes) :
    Serves (rowsOf table) (serve nodes) start (start + count) where
  inRange node hnode := by
    obtain ⟨⟨level, index, hash⟩, hmade, rfl⟩ := List.mem_map.1 hnode
    obtain ⟨-, hselect⟩ := (mem_window_disk hcount hleaves h level index hash).1 hmade
    obtain ⟨bytes, hbytes, -⟩ := Option.bind_eq_some_iff.1 hselect
    obtain ⟨row, hrow, rfl, rfl, -⟩ := mem_of_selectHash hbytes
    exact hrange row hrow
  same leaf hfrom hto level index hfilled := by
    refine Option.ext (fun hash => ?_)
    rw [get?_rowsOf hkey]
    have hread : ∀ node ∈ serve nodes, placeOf node = toLex (level, index) →
        ∀ hash', Logchain.readHash node.hash = some hash' →
          (selectHash table level index).bind rowHash = some hash' := by
      intro node hnode hplace hash' hhash
      obtain ⟨⟨level', index', made⟩, hmade, rfl⟩ := List.mem_map.1 hnode
      obtain ⟨rfl, rfl⟩ := Prod.mk.inj (toLex_inj.1 hplace)
      simp only at hhash
      rw [Logchain.readHash_toHex, Option.some_inj] at hhash
      exact hhash ▸ ((mem_window_disk hcount hleaves h _ _ _).1 hmade).2
    constructor
    · intro hget
      rcases mem_of_stored hget with ⟨node, hnode, hplace, hhash⟩ | hnone
      · exact hread node hnode hplace hash hhash
      · exact nomatch hnone
    · intro hselect
      have hmade := (mem_window_disk hcount hleaves h level index hash).2
        ⟨⟨leaf, hfrom, hto, hfilled⟩, hselect⟩
      refine (get?_storedNodes (fun node hnode hplace hash' hhash => ?_)).2
        ⟨_, List.mem_map_of_mem hmade, rfl, Logchain.readHash_toHex hash⟩
      exact (Option.some_inj.1 (hselect.symm.trans (hread node hnode hplace hash' hhash))).symm

/-! ## Pages and ranges -/

theorem Serves.holdsAt_iff {rows answer : List TreeNode} {start stop : Nat}
    (h : Serves rows answer start stop) {sha256 : Bytes → Hash} {entries : List Bytes} :
    HoldsAt sha256 entries answer start stop ↔ HoldsAt sha256 entries rows start stop := by
  constructor
  · intro hholds leaf hstart hstop level index hash hfilled
    rw [← h.same leaf hstart hstop level index hfilled]
    exact hholds leaf hstart hstop level index hash hfilled
  · intro hholds leaf hstart hstop level index hash hfilled
    rw [h.same leaf hstart hstop level index hfilled]
    exact hholds leaf hstart hstop level index hash hfilled

/-- Later entries do not change the nodes of an earlier leaf. -/
theorem holdsAt_append {sha256 : Bytes → Hash} {entries later : List Bytes} {rows : List TreeNode}
    {start stop : Nat} (hstop : stop ≤ entries.length) :
    HoldsAt sha256 (entries ++ later) rows start stop ↔ HoldsAt sha256 entries rows start stop := by
  have hmade : ∀ leaf < stop, ∀ level index hash, FilledBy level index leaf →
      ((level, index, hash) ∈ madeAt sha256 (entries ++ later) leaf ↔
        (level, index, hash) ∈ madeAt sha256 entries leaf) := by
    intro leaf hleaf level index hash hfilled
    have hfull : Full entries.length level index := by
      unfold FilledBy at hfilled
      unfold Full
      omega
    rw [mem_madeAt, mem_madeAt, perfectHash_append hfull later]
  constructor
  · intro hholds leaf hfrom hleaf level index hash hfilled
    exact (hholds leaf hfrom hleaf level index hash hfilled).trans
      (hmade leaf hleaf level index hash hfilled)
  · intro hholds leaf hfrom hleaf level index hash hfilled
    exact (hholds leaf hfrom hleaf level index hash hfilled).trans
      (hmade leaf hleaf level index hash hfilled).symm

/-- Two ranges that meet. -/
theorem holdsAt_split {sha256 : Bytes → Hash} {entries : List Bytes} {rows : List TreeNode}
    {start middle stop : Nat} (hstart : start ≤ middle) (hstop : middle ≤ stop) :
    HoldsAt sha256 entries rows start stop ↔
      HoldsAt sha256 entries rows start middle ∧ HoldsAt sha256 entries rows middle stop := by
  constructor
  · intro hholds
    exact ⟨fun leaf hfrom hto => hholds leaf hfrom (hto.trans_le hstop),
      fun leaf hfrom hto => hholds leaf (hstart.trans hfrom) hto⟩
  · rintro ⟨hearly, hlate⟩ leaf hfrom hto
    rcases Nat.lt_or_ge leaf middle with hlt | hge
    · exact hearly leaf hfrom hlt
    · exact hlate leaf hge hto

namespace TreeWalk

variable {sha256 : Bytes → Hash} {entries : List Bytes}

/-- One page: its faults, and a walk ready for the next. -/
theorem Follows.walkPage {walk : TreeWalk} (h : Follows sha256 entries entries.length walk)
    (new : List Bytes) (hlen : (entries ++ new).length < 2 ^ 64)
    {answers : Nat → Nat → List TreeNode} (hanswers : ∀ start count, InRange (answers start count)) :
    ∃ faults walk', walkPage sha256 (fun start count => .served (answers start count)) walk new =
        .ok (faults, walk') ∧
      Follows sha256 (entries ++ new) (entries ++ new).length walk' ∧
      (faults = [] ↔ HoldsAt sha256 (entries ++ new) (answers entries.length new.length)
        entries.length (entries ++ new).length) := by
  obtain ⟨fed, hfeed, hfollows, -⟩ := h.feedAll new
  have hlength : (entries ++ new).length = entries.length + new.length := List.length_append
  have hstep : TreeWalk.walkPage sha256 (fun start count => .served (answers start count)) walk new =
      if fed.wantsNodes ∧ 0 < new.length then
        .ok (fed.pageFaults (answers entries.length new.length),
          fed.page (answers entries.length new.length))
      else .ok ([], fed) := by
    rw [TreeWalk.walkPage, hfeed, h.fold.leaves]
    rfl
  rw [hstep]
  by_cases hnew : 0 < new.length
  · rw [if_pos ⟨hfollows.wants, hnew⟩]
    exact ⟨_, _, rfl, hfollows.page _,
      hfollows.pageFaults_eq_nil_iff (by omega) hlen (hanswers _ _)⟩
  · -- A page without messages asks for nothing.
    rw [if_neg (fun hcond => hnew hcond.2)]
    have hnil : new = [] := List.length_eq_zero_iff.1 (Nat.eq_zero_of_not_pos hnew)
    subst hnil
    rw [List.append_nil] at hfollows ⊢
    refine ⟨_, _, rfl, hfollows, iff_of_true rfl ?_⟩
    exact fun leaf hfrom hto => absurd (hfrom.trans_lt hto) (lt_irrefl _)

/-- Pages one after another. -/
theorem Follows.walkPages {rows : List TreeNode} {answers : Nat → Nat → List TreeNode}
    (hserves : ∀ start count, Serves rows (answers start count) start (start + count))
    (pages : List (List Bytes)) :
    ∀ {entries : List Bytes} {walk : TreeWalk}, Follows sha256 entries entries.length walk →
      (entries ++ pages.flatten).length < 2 ^ 64 →
      ∃ faults walk', walkPages sha256 (fun start count => .served (answers start count)) walk
          pages = .ok (faults, walk') ∧
        ((∀ page ∈ faults, page = []) ↔ HoldsAt sha256 (entries ++ pages.flatten) rows
          entries.length (entries ++ pages.flatten).length) := by
  induction pages with
  | nil =>
      intro entries walk _ _
      refine ⟨[], walk, rfl, iff_of_true (fun _ hpage => nomatch hpage) ?_⟩
      rw [List.flatten_nil, List.append_nil]
      exact fun leaf hfrom hto => absurd (hfrom.trans_lt hto) (lt_irrefl _)
  | cons new rest ih =>
      intro entries walk h hlen
      rw [List.flatten_cons, ← List.append_assoc] at hlen ⊢
      have hle : (entries ++ new).length ≤ (entries ++ new ++ rest.flatten).length := by
        rw [@List.length_append _ (entries ++ new)]
        exact Nat.le_add_right _ _
      have hmiddle : entries.length ≤ (entries ++ new).length := by
        rw [List.length_append]
        exact Nat.le_add_right _ _
      obtain ⟨faults, walked, hpage, hfollows, hfaults⟩ := h.walkPage new (hle.trans_lt hlen)
        (fun start count => (hserves start count).inRange)
      obtain ⟨more, walk', hrest, hmore⟩ := ih hfollows hlen
      refine ⟨faults :: more, walk', ?_, ?_⟩
      · rw [TreeWalk.walkPages, hpage]
        show (do
          let (more, walk) ← TreeWalk.walkPages sha256 _ walked rest
          return (faults :: more, walk)) = _
        rw [hrest]
        rfl
      · have hserved := hserves entries.length new.length
        rw [← List.length_append] at hserved
        rw [List.forall_mem_cons, hfaults, hmore, hserved.holdsAt_iff,
          holdsAt_split hmiddle hle, holdsAt_append le_rfl]

/-- However a history is split into pages, no page reports a fault exactly where the stored nodes
are, leaf for leaf, the nodes the entries make. -/
theorem walkPages_silent_iff (sha256 : Bytes → Hash) (rootSizes : List Nat)
    (pages : List (List Bytes)) (hlen : pages.flatten.length < 2 ^ 64) (rows : List TreeNode)
    (answers : Nat → Nat → List TreeNode)
    (hserves : ∀ start count, Serves rows (answers start count) start (start + count)) :
    ∃ faults walk, walkPages sha256 (fun start count => .served (answers start count))
        (TreeWalk.new sha256 rootSizes) pages = .ok (faults, walk) ∧
      ((∀ page ∈ faults, page = []) ↔
        ∀ leaf < pages.flatten.length, ∀ level index hash, FilledBy level index leaf →
          ((storedNodes rows).get? (toLex (level, index)) = some hash ↔
            (level, index, hash) ∈ madeAt sha256 pages.flatten leaf)) := by
  obtain ⟨faults, walk, hwalk, hsilent⟩ := Follows.walkPages hserves pages
    (follows_new sha256 rootSizes) hlen
  refine ⟨faults, walk, hwalk, hsilent.trans ?_⟩
  exact ⟨fun hholds leaf hleaf => hholds leaf (Nat.zero_le _) hleaf,
    fun hholds leaf _ hleaf => hholds leaf hleaf⟩

/-- Three messages on two pages, and a log that holds a single leaf of them. -/
def threeMessages : List (List Bytes) := [[[1], [2]], [[3]]]

def oneLeaf : List TreeNode := [⟨0, 1, Logchain.toHex (List.replicate 32 7)⟩]

theorem walkPages_silent_iff_sample :
    ∃ faults walk, walkPages (fun _ => Vector.replicate 32 7)
        (fun _ _ => .served oneLeaf) (TreeWalk.new (fun _ => Vector.replicate 32 7) [3])
        threeMessages = .ok (faults, walk) ∧
      ((∀ page ∈ faults, page = []) ↔
        ∀ leaf < threeMessages.flatten.length, ∀ level index hash, FilledBy level index leaf →
          ((storedNodes oneLeaf).get? (toLex (level, index)) = some hash ↔
            (level, index, hash) ∈
              madeAt (fun _ => Vector.replicate 32 7) threeMessages.flatten leaf)) :=
  walkPages_silent_iff (fun _ => Vector.replicate 32 7) [3] threeMessages (by decide) oneLeaf
    (fun _ _ => oneLeaf) (fun start count => serves_self (by unfold InRange; decide) start _)

end TreeWalk

end Reporting
end VerifiableExchange

import VerifiableExchange.Feed.Start

/-!
# File — what a running sequencer has written, read back

A start reads an honest file in the order it was written, finds in it the messages that were
published, and goes on with the tree that is there.
-/

namespace VerifiableExchange
namespace Feed

open Lib Merkle Logchain Inbox

variable {sha256 : Bytes → Hash} {serde : Wire.Serde} {accounts : List AccountRow}

/-! ## Numbers -/

theorem asU64_idAsI64 {id : OrderId} (h : id < 18446744073709551616) : asU64 (idAsI64 id) = id := by
  have hid : (id : Int) < 18446744073709551616 := by exact_mod_cast h
  have hpos : (0 : Int) ≤ id := Int.natCast_nonneg _
  rw [asU64, idAsI64]
  split_ifs
  · rw [Int.emod_eq_of_lt hpos hid, Int.toNat_natCast]
  · have hback : ((id : Int) - 2 ^ 64) % 18446744073709551616 = id := by
      rw [show ((2 : Int) ^ 64) = 18446744073709551616 by norm_num, Int.sub_emod_right,
        Int.emod_eq_of_lt hpos hid]
    rw [hback, Int.toNat_natCast]

/-! ## Nodes -/

def FileNode.of (row : NodeRow) : FileNode := ⟨row.level, row.idx, row.hash⟩

theorem nodeRows_of (rows : List NodeRow) : nodeRows (rows.map FileNode.of) = rows := by
  rw [nodeRows, List.filterMap_map]
  have hsome : (fun node : FileNode => if 0 ≤ node.level ∧ 0 ≤ node.idx then
      some (⟨node.level.toNat, node.idx.toNat, node.hash⟩ : NodeRow) else none) ∘ FileNode.of =
        some := by
    funext row
    simp [FileNode.of]
  rw [hsome, List.filterMap_some]

/-- The highest of some numbers, as the query answers it. -/
theorem foldl_highest {step : Option Int → FileNode → Option Int}
    (hstep : ∀ best node, step best node = some (best.elim node.idx (max · node.idx)))
    (nodes : List FileNode) (best : Option Int) :
    nodes.foldl step best =
      (nodes.map FileNode.idx).foldl (fun best idx => some (best.elim idx (max · idx))) best := by
  induction nodes generalizing best with
  | nil => rfl
  | cons node rest ih => rw [List.foldl_cons, List.map_cons, List.foldl_cons, ih, hstep]

theorem foldl_max_isGreatest (best : Option Int) (ids : List Int) (top : Int)
    (htop : top ∈ best.toList ++ ids) (hle : ∀ idx ∈ best.toList ++ ids, idx ≤ top) :
    ids.foldl (fun best idx => some (best.elim idx (max · idx))) best = some top := by
  induction ids generalizing best with
  | nil =>
      cases best with
      | none => simp at htop
      | some idx =>
          rw [List.append_nil, Option.toList_some, List.mem_singleton] at htop
          rw [htop]
          rfl
  | cons idx rest ih =>
      rw [List.foldl_cons]
      apply ih
      · cases best with
        | none => simpa using htop
        | some before =>
            simp only [Option.toList_some, List.singleton_append, List.mem_cons,
              Option.elim_some] at htop hle ⊢
            have hbefore := hle before (Or.inl rfl)
            have hidx := hle idx (Or.inr (Or.inl rfl))
            rcases htop with rfl | rfl | hmem
            · exact Or.inl (by omega)
            · exact Or.inl (by omega)
            · exact Or.inr hmem
      · intro other hother
        cases best with
        | none => exact hle other (by simpa using hother)
        | some before =>
            simp only [Option.toList_some, List.singleton_append, List.mem_cons,
              Option.elim_some] at hother hle ⊢
            rcases hother with rfl | hmem
            · exact max_le (hle before (Or.inl rfl)) (hle idx (Or.inr (Or.inl rfl)))
            · exact hle other (Or.inr (Or.inr hmem))

/-- The leaves counted in the rows of a tree. -/
theorem storedLeaves_storedRows {texts : List Bytes} (h : texts.length < 18446744073709551616) :
    storedLeaves ((storedRows sha256 texts).map FileNode.of) = texts.length := by
  rw [storedLeaves, foldl_highest fun best node => by cases best <;> rfl]
  have hids (idx : Int) : idx ∈ ((((storedRows sha256 texts).map FileNode.of).filter
      fun node => node.level = 0).map FileNode.idx) ↔ ∃ i : Nat, i < texts.length ∧ idx = i := by
    simp only [storedRows, List.map_map, List.mem_map, List.mem_filter, decide_eq_true_eq]
    constructor
    · rintro ⟨node, ⟨⟨⟨level, index⟩, hplace, rfl⟩, hlevel⟩, rfl⟩
      obtain rfl : level = 0 := by simpa [FileNode.of, placeRow] using hlevel
      have hfull := mem_numbering.1 hplace
      rw [Full, pow_zero, Nat.mul_one] at hfull
      exact ⟨index, hfull, rfl⟩
    · rintro ⟨index, hindex, rfl⟩
      refine ⟨_, ⟨⟨(0, index), mem_numbering.2 ?_, rfl⟩, rfl⟩, rfl⟩
      rw [Full, pow_zero, Nat.mul_one]
      exact hindex
  cases hlength : texts.length with
  | zero =>
      have hnil : ((((storedRows sha256 texts).map FileNode.of).filter
          fun node => node.level = 0).map FileNode.idx) = [] := by
        rw [List.eq_nil_iff_forall_not_mem]
        intro idx hidx
        obtain ⟨i, hi, -⟩ := (hids idx).1 hidx
        omega
      rw [hnil]
      rfl
  | succ n =>
      rw [foldl_max_isGreatest none _ n
        (by rw [Option.toList_none, List.nil_append, hids]; exact ⟨n, by omega, rfl⟩)
        (fun idx hidx => by
          rw [Option.toList_none, List.nil_append, hids] at hidx
          obtain ⟨i, hi, rfl⟩ := hidx
          omega)]
      dsimp only
      rw [asU64, Int.emod_eq_of_lt (by omega) (by omega), Int.toNat_natCast, Nat.mod_eq_of_lt (by omega)]

/-! ## Messages -/

def FileRow.of (row : MessageRow) : FileRow := ⟨row.id, some row.json, some row.chain.toList⟩

/-- The published messages are 1 to N, and no more than a signed key can count. -/
structure Numbered (rows : List Published) : Prop where
  ids : rows.map Published.id = List.range' 1 rows.length
  few : rows.length < 9223372036854775808

namespace Numbered

variable {rows : List Published} {chains : List Chain}

theorem id_lt (h : Numbered rows) {row : Published} (hrow : row ∈ rows) :
    1 ≤ row.id ∧ row.id ≤ rows.length := by
  have hmem : row.id ∈ rows.map Published.id := List.mem_map_of_mem hrow
  rw [h.ids, List.mem_range'_1] at hmem
  exact ⟨hmem.1, by have := hmem.2; change row.id < 1 + rows.length at this; exact Nat.lt_one_add_iff.1 this⟩

theorem idAsI64_eq (h : Numbered rows) {row : Published} (hrow : row ∈ rows) :
    idAsI64 row.id = row.id := by
  have hlt : row.id < 9223372036854775808 := (h.id_lt hrow).2.trans_lt h.few
  exact if_pos hlt

theorem file_ids (h : Numbered rows) (hlength : rows.length = chains.length) :
    ((messageRows rows chains).map FileRow.of).map FileRow.id =
      (List.range' 1 rows.length).map Int.ofNat := by
  rw [messageRows, List.map_map, List.map_map, ← h.ids, List.map_map]
  have hfst := congrArg (List.map fun row : Published => idAsI64 row.id)
    (List.map_fst_zip hlength.le)
  rw [List.map_map] at hfst
  exact hfst.trans (List.map_congr_left fun row hrow => h.idAsI64_eq hrow)

theorem file_found (h : Numbered rows) (hlength : rows.length = chains.length) :
    ((messageRows rows chains).map FileRow.of).map FileRow.found = rows := by
  rw [messageRows, List.map_map, List.map_map]
  have hfst : (rows.zip chains).map Prod.fst = rows := List.map_fst_zip hlength.le
  refine (List.map_congr_left fun row hrow => ?_).trans hfst
  have hid := h.idAsI64_eq (List.of_mem_zip hrow).1
  simp only [Function.comp, FileRow.found, FileRow.of, hid, Int.toNat_natCast, Option.getD_some]

/-- The rows come back in the order they were published in. -/
theorem inIdOrder_eq (h : Numbered rows) (hlength : rows.length = chains.length) :
    inIdOrder ((messageRows rows chains).map FileRow.of) =
      (messageRows rows chains).map FileRow.of := by
  apply List.Pairwise.insertionSort_eq
  have hids := h.file_ids hlength
  have hsorted : (((messageRows rows chains).map FileRow.of).map FileRow.id).Pairwise (· ≤ ·) := by
    rw [hids, List.pairwise_map]
    exact (List.pairwise_lt_range' (s := 1)).imp fun hlt => Int.ofNat_le.2 hlt.le
  exact List.pairwise_map.1 hsorted

end Numbered

theorem zip_file (rows : List Published) (chains : List Chain) :
    (((messageRows rows chains).map FileRow.of).zip chains).map
        (fun row => ⟨row.1.id, row.1.found.json, row.2⟩) = messageRows rows chains := by
  rw [messageRows]
  induction rows generalizing chains with
  | nil => rfl
  | cons row rest ih =>
      cases chains with
      | nil => rfl
      | cons chain later =>
          simp only [List.zip_cons_cons, List.map_cons, ih]
          rfl

/-! ## The tree -/

/-- The nodes of an honest file are gone on with, or made again from the same messages. -/
theorem restoreNodes_cases {file : FeedFile} {scan : Scan} {signedRoot : Option Hash}
    {nodes : List NodeRow} {texts : List Bytes} (hfew : texts.length < 9223372036854775808)
    (hnodes : texts = [] ∨ file.nodes = (storedRows sha256 texts).map FileNode.of)
    (hcount : scan.count = texts.length) (hrows : scan.rows.map MessageRow.json = texts)
    (h : restoreNodes sha256 file scan signedRoot = .ok nodes) :
    texts = [] ∨ nodes = storedRows sha256 texts := by
  refine hnodes.imp_right fun hnodes => ?_
  rw [restoreNodes] at h
  rw [hnodes, storedLeaves_storedRows (by omega), hcount, nodeRows_of] at h
  split_ifs at h with hkeeps hless hless
  · exact absurd hless (lt_irrefl _)
  · cases h
    rfl
  · obtain ⟨written, happend, -⟩ := append_eq sha256 [] texts
    rw [rebuild, if_pos rfl, List.drop_zero] at h
    have hleaves : scan.rows.map (fun row => leafHash sha256 row.json) =
        texts.map (leafHash sha256) := by
      rw [← hrows, List.map_map]
      rfl
    rw [hleaves] at h
    rw [List.length_nil, List.nil_append] at happend
    change append sha256 [] 0 _ = _ at happend
    rw [happend] at h
    dsimp only at h
    split_ifs at h
    cases h
    rfl
  · cases h
    rfl

/-- With a signed root beside them, the nodes of an honest file are all there. -/
theorem restoreNodes_eq {file : FeedFile} {scan : Scan} {signed : Hash} {texts : List Bytes}
    (hfew : texts.length < 9223372036854775808)
    (hnodes : file.nodes = (storedRows sha256 texts).map FileNode.of)
    (hcount : scan.count = texts.length) :
    restoreNodes sha256 file scan (some signed) = .ok (storedRows sha256 texts) := by
  have hplaces := length_numbering texts.length
  have hlength : file.nodes.length = (numbering texts.length).length := by
    rw [hnodes, List.length_map, storedRows, List.length_map]
  have hexpected : file.nodes.length % 18446744073709551616 = expectedNodes texts.length := by
    rw [expectedNodes, nodesIn_eq (by omega), hlength, Nat.mod_eq_of_lt (by omega)]
  rw [restoreNodes]
  have hleaves : storedLeaves file.nodes = texts.length := by
    rw [hnodes, storedLeaves_storedRows (by omega)]
  rw [hleaves, hcount, hexpected, hnodes, nodeRows_of]
  simp

theorem checkTree_eq {signed : Hash} {texts : List Bytes}
    (h : treeHash sha256 texts = signed) :
    checkTree sha256 (storedRows sha256 texts) texts.length (some signed) = .ok () := by
  rw [checkTree, root, (holds_disk sha256 texts).mth_eq le_rfl, List.take_length]
  simp [h]

end Feed
end VerifiableExchange

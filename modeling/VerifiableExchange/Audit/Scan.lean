import VerifiableExchange.Lib.MachineInt
import VerifiableExchange.Lib.Numeral
import VerifiableExchange.Lib.Result
import VerifiableExchange.Lib.SortedMap
import VerifiableExchange.Operator

/-!
# Scan — the anchor log of a contract, read backwards

An audit asks an endpoint for the logs of one chunk of blocks after another, from the head down. A
chunk the endpoint refuses for its size is halved and asked for again. What the endpoint answers is
a parameter, and so is how a log is decoded; the ranges it answered come beside the scan.
-/

namespace VerifiableExchange
namespace Audit

open Lib

/-! ## Quantities -/

/-- Reads a number the way JSON-RPC writes one. -/
def decodeQuantity (text : String) : Option Nat :=
  let trimmed := Operator.trim text
  fromStrRadix 16 u64Max (if ['0', 'x'].isPrefixOf trimmed then trimmed.drop 2 else trimmed)

example : decodeQuantity "0x1F " = some 31 := by decide

/-! ## The endpoint -/

/-- One raw log entry, as `eth_getLogs` serves it. -/
structure RawLog where
  topics : List String
  data : String
  blockNumber : String
  deriving DecidableEq

structure Endpoint where
  rpc : String
  /-- `eth_blockNumber`. -/
  blockNumber : Except String String
  /-- `eth_getLogs` over a range of blocks, after this many requests for logs. -/
  getLogs : Nat → Nat → Nat → Except String (List RawLog)

def LOG_CHUNK : Nat := 9000

def MAX_OPEN_ENDED_REQUESTS : Nat := 400

def MAX_BOUNDED_REQUESTS : Nat := 5000

/-! ## The scan -/

/-- What one backwards scan of a contract's log found, by the contract's own counter. -/
structure Scan (T : Type) where
  found : SortedMap Nat T
  scannedFrom : Nat
  complete : Bool

/-- What the loop carries from one request to the next. -/
structure Progress (T : Type) where
  found : SortedMap Nat T
  upto : Nat
  scannedFrom : Nat
  requests : Nat
  chunk : Nat

section

variable {T : Type} (endpoint : Endpoint) (decode : RawLog → Nat → Except String T)
  (indexOf : T → Nat)

/-- Whether every event up to this count was found. -/
def hasEvery (total : Nat) (found : SortedMap Nat T) : Bool :=
  total ≤ found.size && (List.range' 1 total).all (fun index => found.contains index)

def readLog (found : SortedMap Nat T) (log : RawLog) : Except String (SortedMap Nat T) := do
  let block ← orFail (decodeQuantity log.blockNumber)
    (s!"{endpoint.rpc} served an anchor log with block number '{log.blockNumber}', which is not " ++
      "a quantity")
  let anchor ← decode log block
  return found.insert (indexOf anchor) anchor

/-- A refusal that names a range. -/
def NamesRange (reason : String) : Prop := "range".toList <:+: reason.toList

instance (reason : String) : Decidable (NamesRange reason) :=
  inferInstanceAs (Decidable (_ <:+: _))

/-- The loop, with `left` requests left of its budget. -/
def scanLoop (floor total : Nat) :
    Nat → Progress T → Except String (Progress T × List (Nat × Nat))
  | 0, p => .ok (p, [])
  | left + 1, p =>
      if hasEvery total p.found then .ok (p, [])
      else
        let start := max (p.upto - (p.chunk - 1)) floor
        match endpoint.getLogs p.requests start p.upto with
        | .ok logs => do
            let found ← logs.foldlM (readLog endpoint decode indexOf) p.found
            let next : Progress T :=
              { p with found := found, scannedFrom := start, requests := p.requests + 1 }
            if start ≤ floor ∨ start = 0 then return (next, [(start, p.upto)])
            else do
              let (done, answered) ← scanLoop floor total left { next with upto := start - 1 }
              return (done, (start, p.upto) :: answered)
        | .error reason =>
            if NamesRange reason ∧ 100 < p.chunk then
              scanLoop floor total left
                { p with chunk := p.chunk / 2, requests := p.requests + 1 }
            else .error reason

/-- What a scan did: the ranges it was answered for, the newest first, and how many requests it
made. -/
structure Trace where
  head : Nat
  answered : List (Nat × Nat)
  requests : Nat

def budgetOf (fromBlock : Option Nat) : Nat :=
  if fromBlock.isSome then MAX_BOUNDED_REQUESTS else MAX_OPEN_ENDED_REQUESTS

/-- Reads the log backwards until it has as many events as the contract counts. -/
def scanEvents (fromBlock : Option Nat) (total : Nat) : Except String (Scan T × Trace) := do
  let answer ← endpoint.blockNumber
  let head ← orFail (decodeQuantity answer) s!"{endpoint.rpc} did not answer with a block number"
  let (done, answered) ← scanLoop endpoint decode indexOf (fromBlock.getD 0) total
    (budgetOf fromBlock) ⟨.empty, head, head, 0, LOG_CHUNK⟩
  return (⟨done.found, done.scannedFrom, hasEvery total done.found⟩,
    ⟨head, answered, done.requests⟩)

/-! ## What a scan has to do with the contract's log -/

/-- The event this log is. -/
def EventOf (log : RawLog) (anchor : T) : Prop :=
  ∃ block, decodeQuantity log.blockNumber = some block ∧ decode log block = .ok anchor

/-- The log is in one of these blocks. -/
def InBlocks (start stop : Nat) (log : RawLog) : Prop :=
  ∃ block, decodeQuantity log.blockNumber = some block ∧ start ≤ block ∧ block ≤ stop

instance (start stop : Nat) (log : RawLog) : Decidable (InBlocks start stop log) :=
  decidable_of_iff ((decodeQuantity log.blockNumber).any
      (fun block => start ≤ block ∧ block ≤ stop) = true) (by
    unfold InBlocks
    cases decodeQuantity log.blockNumber <;> simp)

/-- An endpoint that answers a range with the events in it. Any range may be refused. -/
def AnswersExactly (contractLog : List RawLog) : Prop :=
  ∀ requests start stop logs, endpoint.getLogs requests start stop = .ok logs →
    logs.Perm (contractLog.filter (fun log => InBlocks start stop log))

/-- The contract gives each of its events a number of its own. -/
def NumbersOnce (contractLog : List RawLog) : Prop :=
  ∀ log ∈ contractLog, ∀ other ∈ contractLog, ∀ anchor anchor',
    EventOf decode log anchor → EventOf decode other anchor' →
      indexOf anchor = indexOf anchor' → anchor = anchor'

end

/-- The ranges follow one another down from a block, without a gap and without an overlap. The first
one is empty when the scan is told to stop at a block above the head. -/
def Contiguous : Nat → List (Nat × Nat) → Prop
  | _, [] => True
  | upto, range :: rest =>
      range.2 = upto ∧ (rest ≠ [] → 0 < range.1 ∧ range.1 ≤ range.2) ∧
        (∀ next ∈ rest, next.1 ≤ next.2) ∧ Contiguous (range.1 - 1) rest

/-- The lowest block of the ranges. -/
def lowestOf (head : Nat) (answered : List (Nat × Nat)) : Nat :=
  (answered.getLast?.map Prod.fst).getD head

section

variable {T : Type} {endpoint : Endpoint} {decode : RawLog → Nat → Except String T}
  {indexOf : T → Nat}

/-! ## One answer -/

theorem readLog_eq_ok {found found' : SortedMap Nat T} {log : RawLog} :
    readLog endpoint decode indexOf found log = .ok found' ↔
      ∃ anchor, EventOf decode log anchor ∧ found' = found.insert (indexOf anchor) anchor := by
  simp only [readLog, bind_eq_ok, orFail_eq_ok]
  constructor
  · rintro ⟨block, hblock, anchor, hanchor, h⟩
    cases h
    exact ⟨anchor, ⟨block, hblock, hanchor⟩, rfl⟩
  · rintro ⟨anchor, ⟨block, hblock, hanchor⟩, rfl⟩
    exact ⟨block, hblock, anchor, hanchor, rfl⟩

/-- What reading some logs into a map leaves in it: what was there, unless an event with the same
number came, and the events of the logs. -/
structure ReadInto (decode : RawLog → Nat → Except String T) (indexOf : T → Nat)
    (logs : List RawLog) (found found' : SortedMap Nat T) : Prop where
  sound : ∀ index anchor, found'.get? index = some anchor → found.get? index = some anchor ∨
    ∃ log ∈ logs, EventOf decode log anchor ∧ indexOf anchor = index
  kept : ∀ index, found.contains index = true → found'.contains index = true
  read : ∀ log ∈ logs, ∃ anchor, EventOf decode log anchor ∧
    found'.contains (indexOf anchor) = true

theorem readInto_of_foldlM {logs : List RawLog} {found found' : SortedMap Nat T}
    (h : logs.foldlM (readLog endpoint decode indexOf) found = .ok found') :
    ReadInto decode indexOf logs found found' := by
  induction logs generalizing found with
  | nil =>
      cases h
      exact ⟨fun _ _ hget => .inl hget, fun _ hcontains => hcontains, List.forall_mem_nil _⟩
  | cons log rest ih =>
      rw [List.foldlM_cons] at h
      obtain ⟨next, hnext, hrest⟩ := bind_eq_ok.1 h
      obtain ⟨anchor, hevent, rfl⟩ := readLog_eq_ok.1 hnext
      have htail := ih hrest
      refine ⟨fun index other hget => ?_, fun index hcontains => ?_, ?_⟩
      · rcases htail.sound index other hget with hget | ⟨log', hmem, hother⟩
        · rw [SortedMap.get?_insert] at hget
          split_ifs at hget with hindex
          · cases hget
            exact .inr ⟨log, List.mem_cons_self, hevent, hindex.symm⟩
          · exact .inl hget
        · exact .inr ⟨log', List.mem_cons_of_mem _ hmem, hother⟩
      · exact htail.kept index (SortedMap.contains_insert_iff.2 (.inl hcontains))
      · refine List.forall_mem_cons.2 ⟨⟨anchor, hevent, ?_⟩, htail.read⟩
        exact htail.kept _ (SortedMap.contains_insert_iff.2 (.inr rfl))

/-! ## The loop -/

/-- What the loop did from one progress to another. -/
structure Scanned (decode : RawLog → Nat → Except String T) (indexOf : T → Nat)
    (contractLog : List RawLog) (floor total left : Nat) (p done : Progress T)
    (answered : List (Nat × Nat)) : Prop where
  contiguous : Contiguous p.upto answered
  ordered : floor ≤ p.upto → ∀ range ∈ answered, range.1 ≤ range.2
  scannedFrom : done.scannedFrom = lowestOf p.scannedFrom answered
  requests : done.requests ≤ p.requests + left
  ended : hasEvery total done.found = true ∨ done.scannedFrom ≤ floor ∨
    done.requests = p.requests + left
  sound : ∀ index anchor, done.found.get? index = some anchor →
    p.found.get? index = some anchor ∨
      ∃ log ∈ contractLog, (∃ range ∈ answered, InBlocks range.1 range.2 log) ∧
        EventOf decode log anchor ∧ indexOf anchor = index
  kept : ∀ index, p.found.contains index = true → done.found.contains index = true
  read : ∀ log ∈ contractLog, ∀ range ∈ answered, InBlocks range.1 range.2 log →
    ∃ anchor, EventOf decode log anchor ∧ done.found.contains (indexOf anchor) = true

/-- A loop that makes no further request. -/
theorem scanned_self {contractLog : List RawLog} {floor total left upto : Nat} {p : Progress T}
    (hended : hasEvery total p.found = true ∨ p.scannedFrom ≤ floor ∨ left = 0) :
    Scanned decode indexOf contractLog floor total left { p with upto := upto } p [] where
  contiguous := trivial
  ordered _ _ hrange := absurd hrange List.not_mem_nil
  scannedFrom := rfl
  requests := Nat.le_add_right _ _
  ended := hended.imp_right (Or.imp_right (fun hleft => by rw [hleft, Nat.add_zero]))
  sound _ _ hget := .inl hget
  kept _ hcontains := hcontains
  read _ _ _ hrange := absurd hrange List.not_mem_nil

/-- A refused request leaves everything but the chunk and the count as it was. -/
theorem Scanned.refused {contractLog : List RawLog} {floor total left chunk : Nat}
    {p done : Progress T} {answered : List (Nat × Nat)}
    (h : Scanned decode indexOf contractLog floor total left
      { p with chunk := chunk, requests := p.requests + 1 } done answered) :
    Scanned decode indexOf contractLog floor total (left + 1) p done answered where
  contiguous := h.contiguous
  ordered := h.ordered
  scannedFrom := h.scannedFrom
  requests := by
    have hrequests := h.requests
    dsimp only at hrequests
    omega
  ended := h.ended.imp_right (Or.imp_right (fun hrequests => by
    dsimp only at hrequests
    omega))
  sound := h.sound
  kept := h.kept
  read := h.read

/-- An answered request, and what the loop did after it. -/
theorem Scanned.answered {contractLog logs : List RawLog} {floor total left start : Nat}
    {p done : Progress T} {found : SortedMap Nat T} {answered : List (Nat × Nat)}
    (hlogs : logs.Perm (contractLog.filter (fun log => InBlocks start p.upto log)))
    (hread : ReadInto decode indexOf logs p.found found)
    (hmore : answered ≠ [] → floor < start ∧ start ≤ p.upto)
    (hstart : floor ≤ p.upto → start ≤ p.upto)
    (h : Scanned decode indexOf contractLog floor total left
      { p with found := found, scannedFrom := start, requests := p.requests + 1,
               upto := start - 1 } done answered) :
    Scanned decode indexOf contractLog floor total (left + 1) p done
      ((start, p.upto) :: answered) where
  contiguous := by
    refine ⟨rfl, fun hsome => ?_, fun next hnext => ?_, h.contiguous⟩
    · have := hmore hsome
      exact ⟨by omega, this.2⟩
    · have := hmore (List.ne_nil_of_mem hnext)
      exact h.ordered (by dsimp only; omega) next hnext
  ordered hfloor range hrange := by
    rcases List.mem_cons.1 hrange with rfl | hrange
    · exact hstart hfloor
    · have := hmore (List.ne_nil_of_mem hrange)
      exact h.ordered (by dsimp only; omega) range hrange
  scannedFrom := by
    rw [h.scannedFrom]
    unfold lowestOf
    cases answered with
    | nil => rfl
    | cons range rest =>
        rw [List.getLast?_cons_cons, List.getLast?_eq_some_getLast (List.cons_ne_nil range rest)]
        rfl
  requests := by
    have hrequests := h.requests
    dsimp only at hrequests
    omega
  ended := h.ended.imp_right (Or.imp_right (fun hrequests => by
    dsimp only at hrequests
    omega))
  sound index anchor hget := by
    rcases h.sound index anchor hget with hget | ⟨log, hmem, ⟨range, hrange, hblocks⟩, hevent⟩
    · rcases hread.sound index anchor hget with hget | ⟨log, hmem, hevent⟩
      · exact .inl hget
      · obtain ⟨hmem, hblocks⟩ := List.mem_filter.1 (hlogs.mem_iff.1 hmem)
        exact .inr ⟨log, hmem, ⟨_, List.mem_cons_self, of_decide_eq_true hblocks⟩, hevent⟩
    · exact .inr ⟨log, hmem, ⟨range, List.mem_cons_of_mem _ hrange, hblocks⟩, hevent⟩
  kept index hcontains := h.kept index (hread.kept index hcontains)
  read log hlog range hrange hblocks := by
    rcases List.mem_cons.1 hrange with rfl | hrange
    · obtain ⟨anchor, hevent, hcontains⟩ := hread.read log
        (hlogs.mem_iff.2 (List.mem_filter.2 ⟨hlog, decide_eq_true hblocks⟩))
      exact ⟨anchor, hevent, h.kept _ hcontains⟩
    · exact h.read log hlog range hrange hblocks

theorem scanLoop_scanned {contractLog : List RawLog} (hexact : AnswersExactly endpoint contractLog)
    {floor total left : Nat} {p done : Progress T} {answered : List (Nat × Nat)}
    (h : scanLoop endpoint decode indexOf floor total left p = .ok (done, answered)) :
    Scanned decode indexOf contractLog floor total left p done answered := by
  induction left generalizing p done answered with
  | zero =>
      cases h
      exact @scanned_self _ _ _ _ _ _ _ p.upto p (.inr (.inr rfl))
  | succ left ih =>
      unfold scanLoop at h
      split_ifs at h with hevery
      · cases h
        exact @scanned_self _ _ _ _ _ _ _ p.upto p (.inl hevery)
      dsimp only at h
      split at h
      case h_1 logs hlogs =>
        obtain ⟨found, hfound, h⟩ := bind_eq_ok.1 h
        have hread := readInto_of_foldlM hfound
        have hperm := hexact _ _ _ _ hlogs
        split_ifs at h with hfloor
        · -- The floor is reached, so the loop ends here.
          cases h
          have hlowest : max (p.upto - (p.chunk - 1)) floor ≤ floor := by omega
          exact Scanned.answered hperm hread (absurd rfl) (by omega)
            (@scanned_self _ _ _ _ floor total left _
              ⟨found, p.upto, max (p.upto - (p.chunk - 1)) floor, p.requests + 1, p.chunk⟩
            (.inr (.inl hlowest)))
        · obtain ⟨⟨done', answered'⟩, hloop, h⟩ := bind_eq_ok.1 h
          cases h
          push Not at hfloor
          exact Scanned.answered hperm hread (fun _ => by omega) (by omega) (ih hloop)
      case h_2 reason _ =>
        split_ifs at h
        exact (ih h).refused

/-! ## The blocks of the ranges -/

theorem lowestOf_cons {head : Nat} {range : Nat × Nat} {rest : List (Nat × Nat)}
    (hsome : rest ≠ []) : lowestOf head (range :: rest) = lowestOf (range.1 - 1) rest := by
  obtain ⟨range', rest', rfl⟩ := List.exists_cons_of_ne_nil hsome
  unfold lowestOf
  rw [List.getLast?_cons_cons, List.getLast?_eq_some_getLast (List.cons_ne_nil range' rest')]
  rfl

theorem lowestOf_le {head : Nat} {answered : List (Nat × Nat)} (h : Contiguous head answered)
    (hordered : ∀ range ∈ answered, range.1 ≤ range.2) : lowestOf head answered ≤ head := by
  induction answered generalizing head with
  | nil => exact Nat.le_refl _
  | cons range rest ih =>
      obtain ⟨rfl, -, -, hrest⟩ := h
      have hrange := hordered range List.mem_cons_self
      by_cases hlast : rest = []
      · subst hlast
        exact hrange
      · rw [lowestOf_cons hlast]
        have := ih hrest (fun next hnext => hordered next (List.mem_cons_of_mem _ hnext))
        omega

/-- Contiguous ranges cover the blocks from the head down to the lowest of them. -/
theorem mem_ranges_iff {head : Nat} {answered : List (Nat × Nat)} (h : Contiguous head answered)
    (hsome : answered ≠ []) (block : Nat) :
    (∃ range ∈ answered, range.1 ≤ block ∧ block ≤ range.2) ↔
      lowestOf head answered ≤ block ∧ block ≤ head := by
  induction answered generalizing head with
  | nil => exact absurd rfl hsome
  | cons range rest ih =>
      obtain ⟨rfl, hmore, hordered, hrest⟩ := h
      by_cases hlast : rest = []
      · subst hlast
        simp [lowestOf]
      · obtain ⟨hpos, hle⟩ := hmore hlast
        have hbelow := lowestOf_le hrest hordered
        rw [List.exists_mem_cons_iff, ih hrest hlast, lowestOf_cons hlast]
        omega

/-- Within the budget, a scan that lacks an event was answered at least once. -/
theorem answered_ne_nil {floor total left halvings : Nat} {p done : Progress T}
    {answered : List (Nat × Nat)} (hchunk : p.chunk ≤ 100 * 2 ^ halvings) (hleft : halvings < left)
    (hlacks : hasEvery total p.found = false)
    (h : scanLoop endpoint decode indexOf floor total left p = .ok (done, answered)) :
    answered ≠ [] := by
  induction left generalizing p halvings with
  | zero => exact absurd hleft (Nat.not_lt_zero _)
  | succ left ih =>
      unfold scanLoop at h
      rw [if_neg (by rw [hlacks]; exact Bool.false_ne_true)] at h
      dsimp only at h
      split at h
      case h_1 logs _ =>
        obtain ⟨found, -, h⟩ := bind_eq_ok.1 h
        split_ifs at h
        · cases h
          exact List.cons_ne_nil _ _
        · obtain ⟨⟨done', answered'⟩, -, h⟩ := bind_eq_ok.1 h
          cases h
          exact List.cons_ne_nil _ _
      case h_2 reason _ =>
        split_ifs at h with hhalve
        cases halvings with
        | zero => omega
        | succ halvings =>
            have hhalf : p.chunk / 2 ≤ 100 * 2 ^ halvings := by
              rw [Nat.pow_succ] at hchunk
              omega
            exact @ih halvings ⟨p.found, p.upto, p.scannedFrom, p.requests + 1, p.chunk / 2⟩
              hhalf (by omega) hlacks h

/-! ## The whole scan -/

/-- What a scan that answered says about the contract's log. -/
structure SkipsNoBlock (endpoint : Endpoint) (decode : RawLog → Nat → Except String T)
    (indexOf : T → Nat) (contractLog : List RawLog) (fromBlock : Option Nat) (total : Nat)
    (scan : Scan T) (trace : Trace) : Prop where
  head : ∃ answer, endpoint.blockNumber = .ok answer ∧ decodeQuantity answer = some trace.head
  requests : trace.requests ≤ budgetOf fromBlock
  contiguous : Contiguous trace.head trace.answered
  scannedFrom : scan.scannedFrom = lowestOf trace.head trace.answered
  /-- The ranges answered make up the blocks down to `scanned_from`. -/
  blocks : 0 < total → ∀ block, (∃ range ∈ trace.answered, range.1 ≤ block ∧ block ≤ range.2) ↔
    scan.scannedFrom ≤ block ∧ block ≤ trace.head
  /-- What was found is an event of those blocks. -/
  sound : ∀ index anchor, scan.found.get? index = some anchor →
    ∃ log ∈ contractLog, (∃ range ∈ trace.answered, InBlocks range.1 range.2 log) ∧
      EventOf decode log anchor ∧ indexOf anchor = index
  /-- Every event of those blocks was found. -/
  read : ∀ log ∈ contractLog, (∃ range ∈ trace.answered, InBlocks range.1 range.2 log) →
    ∃ anchor, EventOf decode log anchor ∧ scan.found.contains (indexOf anchor) = true ∧
      (NumbersOnce decode indexOf contractLog →
        scan.found.get? (indexOf anchor) = some anchor)
  complete : scan.complete = true →
    ∀ index, 1 ≤ index → index ≤ total → scan.found.contains index = true
  incomplete : scan.complete = false →
    scan.scannedFrom ≤ fromBlock.getD 0 ∨ trace.requests = budgetOf fromBlock

theorem contains_of_hasEvery {total : Nat} {found : SortedMap Nat T}
    (h : hasEvery total found = true) {index : Nat} (hpos : 1 ≤ index) (hle : index ≤ total) :
    found.contains index = true := by
  obtain ⟨-, hall⟩ := Bool.and_eq_true_iff.1 h
  exact List.all_eq_true.1 hall index (List.mem_range'_1.2 ⟨hpos, by omega⟩)

theorem hasEvery_empty {total : Nat} (h : 0 < total) :
    hasEvery total (.empty : SortedMap Nat T) = false := by
  unfold hasEvery
  rw [decide_eq_false (by simpa [SortedMap.size] using Nat.ne_of_gt h), Bool.false_and]

/-- The open-ended budget is above the number of times a chunk can be halved. -/
theorem seven_lt_budgetOf (fromBlock : Option Nat) : 7 < budgetOf fromBlock := by
  unfold budgetOf
  split_ifs <;> decide

/-- Against an endpoint that answers a range with exactly the events in it, or refuses it, a scan
makes no more requests than its budget, and the ranges it was answered for leave out no block from
the head down to where it says it read. What it found is exactly the events of those blocks. It says
it is complete only with every event the contract counts, and otherwise it has reached its floor or
spent its budget. -/
theorem scan_skips_no_block {contractLog : List RawLog}
    (hexact : AnswersExactly endpoint contractLog) {fromBlock : Option Nat} {total : Nat}
    {scan : Scan T} {trace : Trace}
    (h : scanEvents endpoint decode indexOf fromBlock total = .ok (scan, trace)) :
    SkipsNoBlock endpoint decode indexOf contractLog fromBlock total scan trace := by
  simp only [scanEvents, bind_eq_ok, orFail_eq_ok] at h
  obtain ⟨answer, hanswer, head, hhead, ⟨done, answered⟩, hloop, h⟩ := h
  cases h
  have hscanned := scanLoop_scanned hexact hloop
  have hfound : ∀ index anchor, done.found.get? index = some anchor →
      ∃ log ∈ contractLog, (∃ range ∈ answered, InBlocks range.1 range.2 log) ∧
        EventOf decode log anchor ∧ indexOf anchor = index := by
    intro index anchor hget
    rcases hscanned.sound index anchor hget with hnone | hlog
    · exact absurd hnone (by simp)
    · exact hlog
  refine
    { head := ⟨answer, hanswer, hhead⟩
      requests := by simpa using hscanned.requests
      contiguous := hscanned.contiguous
      scannedFrom := hscanned.scannedFrom
      blocks := fun htotal block => ?_
      sound := hfound
      read := fun log hlog hrange => ?_
      complete := fun hcomplete index hpos hle => contains_of_hasEvery hcomplete hpos hle
      incomplete := fun hcomplete => ?_ }
  · have hchunk : LOG_CHUNK ≤ 100 * 2 ^ 7 := by decide
    have hsome := answered_ne_nil hchunk (seven_lt_budgetOf fromBlock) (hasEvery_empty htotal) hloop
    show _ ↔ done.scannedFrom ≤ block ∧ block ≤ head
    rw [hscanned.scannedFrom]
    exact mem_ranges_iff hscanned.contiguous hsome block
  · obtain ⟨range, hrange, hblocks⟩ := hrange
    obtain ⟨anchor, hevent, hcontains⟩ := hscanned.read log hlog range hrange hblocks
    refine ⟨anchor, hevent, hcontains, fun hnumbers => ?_⟩
    -- Another event under this number is the same event.
    obtain ⟨anchor', hget⟩ := SortedMap.contains_iff.1 hcontains
    obtain ⟨log', hlog', -, hevent', hindex⟩ := hfound _ anchor' hget
    rw [hnumbers log hlog log' hlog' anchor anchor' hevent hevent' hindex.symm]
    rwa [hindex]
  · rcases hscanned.ended with hevery | hfloor | hbudget
    · exact absurd hevery (Bool.eq_false_iff.1 hcomplete)
    · exact .inl hfloor
    · exact .inr (by simpa using hbudget)

end

/-! ## A scan -/

/-- A contract with three events, at an endpoint that answers at most a thousand blocks at once. -/
def sampleLog : List RawLog :=
  [⟨[], "0x3", "0x2f00"⟩, ⟨[], "0x2", "0x2eff"⟩, ⟨[], "0x1", "0x2a00"⟩]

def sampleEndpoint : Endpoint where
  rpc := "https://node"
  blockNumber := .ok "0x2f10"
  getLogs _ start stop :=
    if 1000 < stop + 1 - start then .error "block range is too wide"
    else .ok (sampleLog.filter (fun log => InBlocks start stop log))

def sampleDecode (log : RawLog) (_block : Nat) : Except String Nat :=
  orFail (decodeQuantity log.data) "not an event"

theorem sampleEndpoint_answersExactly : AnswersExactly sampleEndpoint sampleLog := by
  intro requests start stop logs h
  simp only [sampleEndpoint] at h
  split_ifs at h
  cases h
  exact List.Perm.refl _

theorem scan_skips_no_block_sample :
    ∃ scan trace, scanEvents sampleEndpoint sampleDecode id none 3 = .ok (scan, trace) ∧
      scan.complete = true ∧ trace.answered.length = 3 ∧ trace.requests = 7 ∧
      SkipsNoBlock sampleEndpoint sampleDecode id sampleLog none 3 scan trace := by
  have hrun : ((scanEvents sampleEndpoint sampleDecode id none 3).toOption.any (fun result =>
      result.1.complete && result.2.answered.length == 3 && result.2.requests == 7)) = true := by
    decide +kernel
  rcases h : scanEvents sampleEndpoint sampleDecode id none 3 with reason | ⟨scan, trace⟩
  · rw [h] at hrun
    exact absurd hrun Bool.false_ne_true
  · rw [h] at hrun
    have hmeets := scan_skips_no_block sampleEndpoint_answersExactly h
    simp only [Except.toOption, Option.any_some, Bool.and_eq_true, beq_iff_eq] at hrun
    exact ⟨scan, trace, rfl, hrun.1.1, hrun.1.2, hrun.2, hmeets⟩

end Audit
end VerifiableExchange

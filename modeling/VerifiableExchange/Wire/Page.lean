import VerifiableExchange.Lib.Result
import VerifiableExchange.Wire
import VerifiableExchange.Wire.Text

/-!
# Page — the two readers of one page

A page is one message a line. One reader takes the envelope out of each line and leaves the message
to be parsed later; the other parses the message first and falls back to the envelope. They agree on
every line but one that writes a message in array form, which the envelope has no room for.
-/

namespace VerifiableExchange
namespace Wire

open Lib

/-! ## Lines -/

def isAsciiWhitespace (b : UInt8) : Bool := b = 32 || b = 9 || b = 10 || b = 12 || b = 13

/-- Why a page is refused, with the line the error shows the start of. -/
inductive PageError
  /-- The line is padded with whitespace, so its bytes are not the bytes the feed hashed. -/
  | padded (line : Bytes)
  /-- The line is not a feed message. -/
  | notAFeedMessage (reason : EnvelopeError) (line : Bytes)
  deriving DecidableEq

/-- The first or the last byte of the line is whitespace. -/
def Padded (line : Bytes) : Prop :=
  line.head?.any isAsciiWhitespace = true ∨ line.getLast?.any isAsciiWhitespace = true

instance (line : Bytes) : Decidable (Padded line) := inferInstanceAs (Decidable (_ ∨ _))

/-- The lines of a page that hold anything but whitespace. -/
def linesOf (body : Bytes) : List Bytes :=
  (body.splitOn 10).filter (fun line => !line.all isAsciiWhitespace)

def framedLine (line : Bytes) : Except PageError Bytes :=
  if Padded line then .error (.padded line) else .ok line

def framedLines (body : Bytes) : List (Except PageError Bytes) := (linesOf body).map framedLine

/-! ## The two readers -/

/-- `serde_json`, and what it says of a text that is not a message of this build. -/
structure Reader extends Serde where
  reason : Bytes → String

/-- One message exactly as it was served. -/
structure RawMessage where
  id : OrderId
  kind : String
  bytes : Bytes
  deriving DecidableEq

/-- One message of a page, read once: its raw form, and what this build made of it. -/
structure PageMessage where
  raw : RawMessage
  parsed : Except TooOld OrderMessage
  deriving DecidableEq

/-- The part of a message the matcher takes. -/
def PageMessage.received (message : PageMessage) : ReadMessage where
  bytes := message.raw.bytes
  parsed := message.parsed

variable (reader : Reader)

def RawMessage.parse (raw : RawMessage) : Except TooOld OrderMessage :=
  match readMessage reader.toSerde raw.bytes with
  | some msg => .ok msg
  | none => .error { id := raw.id, kind := raw.kind, reason := reader.reason raw.bytes }

/-- The envelope of a line, as a raw message. -/
def splitLine (framed : Except PageError Bytes) : Except PageError RawMessage := do
  let line ← framed
  let read ← (envelope reader.toSerde line).mapError (.notAFeedMessage · line)
  return { id := read.id, kind := read.kind, bytes := line }

def splitNdjson (body : Bytes) : Except PageError (List RawMessage) :=
  (framedLines body).mapM (splitLine reader)

def readLine (framed : Except PageError Bytes) : Except PageError PageMessage := do
  let line ← framed
  match readMessage reader.toSerde line with
  | some msg =>
      return { raw := { id := msg.id, kind := kind msg, bytes := line }, parsed := .ok msg }
  | none => do
      let read ← (envelope reader.toSerde line).mapError (.notAFeedMessage · line)
      return {
        raw := { id := read.id, kind := read.kind, bytes := line }
        parsed := .error { id := read.id, kind := read.kind, reason := reader.reason line } }

def readNdjson (body : Bytes) : Except PageError (List PageMessage) :=
  (framedLines body).mapM (readLine reader)

/-- A page that is split first, and each of its messages parsed afterwards. -/
def splitThenParse (body : Bytes) : Except PageError (List PageMessage) :=
  (splitNdjson reader body).map
    (List.map (fun raw => { raw := raw, parsed := raw.parse reader }))

/-- Both readings fail, or both give the same messages over the same bytes. -/
def Agree (a b : Except PageError (List PageMessage)) : Prop :=
  (∃ e e', a = .error e ∧ b = .error e') ∨ ∃ messages, a = .ok messages ∧ b = .ok messages

/-! ## A message and its envelope -/

/-- Fields a reader is told about can be looked up before or after the others are dropped. -/
theorem lookup_filter {names : List String} {key : String} (hkey : key ∈ names) :
    ∀ fields : List (String × Value),
      (fields.filter (fun field => field.1 ∈ names)).lookup key = fields.lookup key
  | [] => rfl
  | (name, value) :: fields => by
      rw [List.filter_cons]
      by_cases hname : name ∈ names
      · rw [if_pos (decide_eq_true hname), List.lookup_cons, List.lookup_cons,
          lookup_filter hkey fields]
      · have hne : (key == name) = false := by
          refine beq_eq_false_iff_ne.2 ?_
          rintro rfl
          exact hname hkey
        rw [if_neg (by simpa using hname), List.lookup_cons, hne, lookup_filter hkey fields]

section Body

variable {names : List String} {fields read : List (String × Value)}

theorem known_obj (h : known names (.obj fields) = some read) :
    read = fields.filter (fun field => field.1 ∈ names) ∧ (read.map Prod.fst).Nodup := by
  unfold known at h
  dsimp only at h
  split_ifs at h with hnodup
  · cases h
    exact ⟨rfl, hnodup⟩

/-- A reader told about the envelope's fields among others reads the same ones. -/
theorem readBody_of_known (h : known names (.obj fields) = some read)
    (hnames : ["id", "account", "nonce"] ⊆ names) {id : Nat} {account : AccountId}
    {nonce : Option String} (hid : required readU64 read "id" = some id)
    (haccount : required readAccount read "account" = some account)
    (hnonce : defaulted readNonce none read "nonce" = some nonce) (kind : String) :
    readBody kind (.obj fields) = some ⟨kind, id, some account, nonce⟩ := by
  obtain ⟨rfl, hnodup⟩ := known_obj h
  set inner := fields.filter (fun field => field.1 ∈ ["id", "account", "nonce"])
  have hlookup : ∀ key ∈ ["id", "account", "nonce"],
      inner.lookup key = (fields.filter (fun field => field.1 ∈ names)).lookup key := by
    intro key hkey
    rw [lookup_filter hkey, lookup_filter (hnames hkey)]
  have hinner : known ["id", "account", "nonce"] (.obj fields) = some inner := by
    refine if_pos (hnodup.sublist (List.Sublist.map _ ?_))
    refine List.monotone_filter_right _ (fun field hfield => ?_)
    exact decide_eq_true (hnames (of_decide_eq_true hfield))
  have haccount' : defaulted readAnyAccount none inner "account" = some (some account) := by
    unfold required at haccount
    obtain ⟨value, hvalue, hread⟩ := Option.bind_eq_some_iff.1 haccount
    rw [defaulted, hlookup "account" (by simp), hvalue]
    cases value with
    | int n => simp [readAnyAccount, inRange, hread]
    | _ => cases hread
  have hid' : required readU64 inner "id" = some id := by
    rwa [required, ← hlookup "id" (by simp)] at hid
  have hnonce' : defaulted readNonce none inner "nonce" = some nonce := by
    rwa [defaulted, ← hlookup "nonce" (by simp)] at hnonce
  simp only [readBody, hinner, hid', haccount', hnonce', bind, Option.bind_some]
  rfl

theorem mem_of_lookup {α : Type} {key : String} {value : α} {table : List (String × α)}
    (h : table.lookup key = some value) : (key, value) ∈ table := by
  obtain ⟨front, back, rfl, -⟩ := List.lookup_eq_some_iff.1 h
  exact List.mem_append_right _ List.mem_cons_self

/-- Every reader of a kind reads what an envelope needs. -/
theorem readBody_of_reader {kind : String} {read : Value → Option OrderMessage}
    (hreader : readers.lookup kind = some read) {msg : OrderMessage}
    (hread : read (.obj fields) = some msg) :
    readBody kind (.obj fields) = some ⟨kind, msg.id, some msg.account, msg.nonce⟩ ∧
      kind = Wire.kind msg := by
  have hmem := mem_of_lookup hreader
  simp only [readers, List.mem_cons, Prod.mk.injEq, List.not_mem_nil, or_false] at hmem
  rcases hmem with ⟨rfl, rfl⟩ | ⟨rfl, rfl⟩ | ⟨rfl, rfl⟩ | ⟨rfl, rfl⟩ | ⟨rfl, rfl⟩
  · simp only [readNew, Option.bind_eq_bind, Option.bind_eq_some_iff, Option.pure_def,
      Option.some.injEq] at hread
    obtain ⟨known, hknown, id, hid, _, -, account, haccount, _, -, _, -, _, -, _, -, nonce, hnonce,
      _, -, _, -, _, -, rfl⟩ := hread
    exact ⟨readBody_of_known hknown (by decide) hid haccount hnonce _, rfl⟩
  · simp only [readCancel, Option.bind_eq_bind, Option.bind_eq_some_iff, Option.pure_def,
      Option.some.injEq] at hread
    obtain ⟨known, hknown, id, hid, _, -, account, haccount, _, -, nonce, hnonce, rfl⟩ := hread
    exact ⟨readBody_of_known hknown (by decide) hid haccount hnonce _, rfl⟩
  · simp only [readEngineRule, Option.bind_eq_bind, Option.bind_eq_some_iff, Option.pure_def,
      Option.some.injEq] at hread
    obtain ⟨known, hknown, id, hid, _, -, account, haccount, _, -, nonce, hnonce, _, -, _, -,
      rfl⟩ := hread
    exact ⟨readBody_of_known hknown (by decide) hid haccount hnonce _, rfl⟩
  · simp only [readListSymbol, Option.bind_eq_bind, Option.bind_eq_some_iff, Option.pure_def,
      Option.some.injEq] at hread
    obtain ⟨known, hknown, id, hid, _, -, account, haccount, _, -, _, -, _, -, nonce, hnonce, _, -,
      _, -, rfl⟩ := hread
    exact ⟨readBody_of_known hknown (by decide) hid haccount hnonce _, rfl⟩
  · simp only [readDelistSymbol, Option.bind_eq_bind, Option.bind_eq_some_iff, Option.pure_def,
      Option.some.injEq] at hread
    obtain ⟨known, hknown, id, hid, _, -, account, haccount, _, -, nonce, hnonce, _, -, _, -,
      rfl⟩ := hread
    exact ⟨readBody_of_known hknown (by decide) hid haccount hnonce _, rfl⟩

/-- A field past the third that an array gives by position. -/
theorem length_of_required {α : Type} {readField : Value → Option α} {items : List Value}
    {key : String} {value : α} (h : known names (.arr items) = some read)
    (hread : required readField read key = some value) (hkey : key ∉ names.take 3) :
    3 < items.length := by
  unfold known at h
  dsimp only at h
  split_ifs at h with hlength
  cases h
  obtain ⟨found, hfound, -⟩ := Option.bind_eq_some_iff.1 hread
  have hmem := mem_of_lookup hfound
  rw [List.zip_eq_zip_take_min] at hmem
  by_contra hshort
  refine hkey (List.take_subset_take_left names ?_ (List.of_mem_zip hmem).1)
  exact (min_le_right _ _).trans (not_lt.1 hshort)

/-- No kind has as few fields as an envelope. -/
theorem length_of_reader {kind : String} {read : Value → Option OrderMessage} {items : List Value}
    (hreader : readers.lookup kind = some read) {msg : OrderMessage}
    (hread : read (.arr items) = some msg) : 3 < items.length := by
  have hmem := mem_of_lookup hreader
  simp only [readers, List.mem_cons, Prod.mk.injEq, List.not_mem_nil, or_false] at hmem
  rcases hmem with ⟨rfl, rfl⟩ | ⟨rfl, rfl⟩ | ⟨rfl, rfl⟩ | ⟨rfl, rfl⟩ | ⟨rfl, rfl⟩
  · simp only [readNew, Option.bind_eq_bind, Option.bind_eq_some_iff] at hread
    obtain ⟨known, hknown, _, -, _, -, _, -, symbol, hsymbol, -⟩ := hread
    exact length_of_required hknown hsymbol (by decide)
  · simp only [readCancel, Option.bind_eq_bind, Option.bind_eq_some_iff] at hread
    obtain ⟨known, hknown, _, -, _, -, _, -, target, htarget, -⟩ := hread
    exact length_of_required hknown htarget (by decide)
  · simp only [readEngineRule, Option.bind_eq_bind, Option.bind_eq_some_iff] at hread
    obtain ⟨known, hknown, _, -, _, -, _, -, version, hversion, -⟩ := hread
    exact length_of_required hknown hversion (by decide)
  · simp only [readListSymbol, Option.bind_eq_bind, Option.bind_eq_some_iff] at hread
    obtain ⟨known, hknown, _, -, _, -, _, -, symbol, hsymbol, -⟩ := hread
    exact length_of_required hknown hsymbol (by decide)
  · simp only [readDelistSymbol, Option.bind_eq_bind, Option.bind_eq_some_iff] at hread
    obtain ⟨known, hknown, _, -, _, -, _, -, symbol, hsymbol, -⟩ := hread
    exact length_of_required hknown hsymbol (by decide)

end Body

/-! ## One line -/

variable {reader}

/-- The line writes a message of this build as one kind over an array of its fields. -/
def ArrayForm (serde : Serde) (line : Bytes) : Prop :=
  ∃ kind items msg, serde.parse line = some (.obj [(kind, .arr items)]) ∧
    readMessage serde line = some msg

/-- Neither reader can place the line: it is padded, or it is neither a message of this build nor
an envelope. -/
def Refused (serde : Serde) (line : Bytes) : Prop :=
  Padded line ∨ (readMessage serde line = none ∧ ∃ reason, envelope serde line = .error reason)

/-- The body of a kind is an object or an array. -/
theorem body_of_reader {kind : String} {read : Value → Option OrderMessage} {body : Value}
    (hreader : readers.lookup kind = some read) {msg : OrderMessage}
    (hread : read body = some msg) :
    (∃ fields, body = .obj fields) ∨ ∃ items, body = .arr items := by
  have hknown : ∃ names known', known names body = some known' := by
    have hmem := mem_of_lookup hreader
    simp only [readers, List.mem_cons, Prod.mk.injEq, List.not_mem_nil, or_false] at hmem
    rcases hmem with ⟨rfl, rfl⟩ | ⟨rfl, rfl⟩ | ⟨rfl, rfl⟩ | ⟨rfl, rfl⟩ | ⟨rfl, rfl⟩ <;>
      · obtain ⟨fields, hfields, -⟩ := Option.bind_eq_some_iff.1 hread
        exact ⟨_, fields, hfields⟩
  obtain ⟨names, known', hknown⟩ := hknown
  cases body with
  | obj fields => exact .inl ⟨fields, rfl⟩
  | arr items => exact .inr ⟨items, rfl⟩
  | _ => cases hknown

/-- A message of this build is either in array form, and no envelope, or an envelope with the same
id and kind. -/
theorem envelope_of_readMessage {serde : Serde} {line : Bytes} {msg : OrderMessage}
    (h : readMessage serde line = some msg) :
    (ArrayForm serde line ∧ ∃ reason, envelope serde line = .error reason) ∨
      (¬ArrayForm serde line ∧
        envelope serde line = .ok ⟨kind msg, msg.id, some msg.account, msg.nonce⟩) := by
  obtain ⟨value, hparse, hvalue⟩ := Option.bind_eq_some_iff.1 h
  unfold readMessageValue at hvalue
  split at hvalue
  · rename_i kind body
    obtain ⟨read, hreader, hread⟩ := Option.bind_eq_some_iff.1 hvalue
    unfold envelope
    rw [hparse]
    rcases body_of_reader hreader hread with ⟨fields, rfl⟩ | ⟨items, rfl⟩
    · obtain ⟨hbody, hkind⟩ := readBody_of_reader hreader hread
      refine .inr ⟨?_, ?_⟩
      · rintro ⟨kind', items, msg', hparse', -⟩
        rw [hparse] at hparse'
        cases hparse'
      · rw [hkind] at hbody
        simp [envelopeValue, readBodies, hkind, hbody]
    · -- An envelope is an array of three fields at most.
      have hlength := length_of_reader hreader hread
      have hknown : known ["id", "account", "nonce"] (.arr items) = none :=
        if_neg (not_le.2 hlength)
      have hbody : readBody kind (.arr items) = none := by
        rw [readBody, hknown]
        rfl
      refine .inl ⟨⟨kind, items, msg, hparse, h⟩, .notAMessage, ?_⟩
      simp [envelopeValue, readBodies, hbody]
  · cases hvalue

/-- The id beside the bytes is the id of the message that is matched. -/
theorem id_received {framed : Except PageError Bytes} {message : PageMessage}
    (h : readLine reader framed = .ok message) : message.received.id = message.raw.id := by
  obtain ⟨line, -, h⟩ := bind_eq_ok.1 h
  cases hmessage : readMessage reader.toSerde line with
  | some msg =>
      rw [hmessage] at h
      cases h
      rfl
  | none =>
      rw [hmessage] at h
      obtain ⟨read, -, h⟩ := bind_eq_ok.1 h
      cases h
      rfl

/-- What the first reader makes of one line. -/
def splitThenParseLine (reader : Reader) (framed : Except PageError Bytes) :
    Except PageError PageMessage :=
  (splitLine reader framed).map (fun raw => { raw := raw, parsed := raw.parse reader })

/-- Both readers refuse a line that neither can place. -/
theorem lines_of_refused {line : Bytes} (h : Refused reader.toSerde line) :
    (∃ e, readLine reader (framedLine line) = .error e) ∧
      ∃ e, splitThenParseLine reader (framedLine line) = .error e := by
  unfold framedLine
  by_cases hpadded : Padded line
  · rw [if_pos hpadded]
    exact ⟨⟨_, rfl⟩, ⟨_, rfl⟩⟩
  · obtain ⟨hmessage, reason, henvelope⟩ := h.resolve_left hpadded
    rw [if_neg hpadded]
    refine ⟨⟨.notAFeedMessage reason line, ?_⟩, ⟨.notAFeedMessage reason line, ?_⟩⟩
    · simp [readLine, hmessage, henvelope, bind, Except.bind, Except.mapError]
    · simp [splitThenParseLine, splitLine, henvelope, bind, Except.bind, Except.mapError,
        Except.map]

/-- A message in array form is one message for one reader, and none for the other. -/
theorem lines_of_arrayForm {line : Bytes} (h : ¬Refused reader.toSerde line)
    (harray : ArrayForm reader.toSerde line) :
    (∃ message, readLine reader (framedLine line) = .ok message) ∧
      ∃ e, splitThenParseLine reader (framedLine line) = .error e := by
  have hpadded : ¬Padded line := fun hp => h (.inl hp)
  obtain ⟨_, _, msg, -, hmessage⟩ := id harray
  rcases envelope_of_readMessage hmessage with ⟨-, reason, henvelope⟩ | ⟨hnot, -⟩
  · rw [framedLine, if_neg hpadded]
    refine ⟨⟨_, by simp only [readLine, hmessage, bind, Except.bind]; rfl⟩,
      ⟨.notAFeedMessage reason line, ?_⟩⟩
    simp [splitThenParseLine, splitLine, henvelope, bind, Except.bind, Except.mapError, Except.map]
  · exact absurd harray hnot

/-- Any other line is the same message for both, over the same bytes. -/
theorem lines_of_plain {line : Bytes} (h : ¬Refused reader.toSerde line)
    (harray : ¬ArrayForm reader.toSerde line) :
    ∃ message, readLine reader (framedLine line) = .ok message ∧
      splitThenParseLine reader (framedLine line) = .ok message := by
  have hpadded : ¬Padded line := fun hp => h (.inl hp)
  rw [framedLine, if_neg hpadded]
  cases hmessage : readMessage reader.toSerde line with
  | some msg =>
      rcases envelope_of_readMessage hmessage with ⟨hyes, -⟩ | ⟨-, henvelope⟩
      · exact absurd hyes harray
      · refine ⟨{ raw := { id := msg.id, kind := kind msg, bytes := line }, parsed := .ok msg },
          ?_, ?_⟩
        · simp only [readLine, hmessage, bind, Except.bind]
          rfl
        · simp [splitThenParseLine, splitLine, henvelope, bind, Except.bind, Except.mapError,
            Except.map, RawMessage.parse, hmessage, pure, Except.pure]
  | none =>
      cases henvelope : envelope reader.toSerde line with
      | error reason => exact absurd (.inr ⟨hmessage, reason, henvelope⟩) h
      | ok read =>
          refine ⟨_, by simp only [readLine, hmessage, henvelope, bind, Except.bind,
            Except.mapError]; rfl, ?_⟩
          simp [splitThenParseLine, splitLine, henvelope, bind, Except.bind, Except.mapError,
            Except.map, RawMessage.parse, hmessage, pure, Except.pure]

/-! ## One page -/

/-- Splitting a page and parsing each message is splitting and parsing each line. -/
theorem splitThenParse_eq (reader : Reader) (body : Bytes) :
    splitThenParse reader body = (framedLines body).mapM (splitThenParseLine reader) := by
  unfold splitThenParse splitNdjson
  induction framedLines body with
  | nil => rfl
  | cons framed lines ih =>
      rw [List.mapM_cons, List.mapM_cons, ← ih, splitThenParseLine]
      cases splitLine reader framed with
      | error e => rfl
      | ok raw =>
          cases lines.mapM (splitLine reader) with
          | error e => rfl
          | ok raws => rfl

/-- The two readers agree on a page exactly where it holds a line that both refuse, or none in array
form. -/
theorem readers_agree_iff (reader : Reader) (body : Bytes) :
    Agree (readNdjson reader body) (splitThenParse reader body) ↔
      (∃ line ∈ linesOf body, Refused reader.toSerde line) ∨
        ∀ line ∈ linesOf body, ¬ArrayForm reader.toSerde line := by
  rw [splitThenParse_eq, readNdjson]
  have hframed : ∀ line ∈ linesOf body, framedLine line ∈ framedLines body := fun line hline =>
    List.mem_map_of_mem hline
  by_cases hrefused : ∃ line ∈ linesOf body, Refused reader.toSerde line
  · refine iff_of_true (.inl ?_) (.inl hrefused)
    obtain ⟨line, hline, hrefuse⟩ := hrefused
    obtain ⟨⟨_, hread⟩, ⟨_, hsplit⟩⟩ := lines_of_refused hrefuse
    obtain ⟨e, he⟩ := mapM_error_of_mem (hframed line hline) hread
    obtain ⟨e', he'⟩ := mapM_error_of_mem (hframed line hline) hsplit
    exact ⟨e, e', he, he'⟩
  · have hplaced : ∀ line ∈ linesOf body, ¬Refused reader.toSerde line := fun line hline h =>
      hrefused ⟨line, hline, h⟩
    have hok : ∃ messages, (framedLines body).mapM (readLine reader) = .ok messages := by
      refine exists_mapM_ok (fun framed hmem => ?_)
      obtain ⟨line, hline, rfl⟩ := List.mem_map.1 hmem
      by_cases harray : ArrayForm reader.toSerde line
      · exact (lines_of_arrayForm (hplaced line hline) harray).1
      · obtain ⟨message, hread, -⟩ := lines_of_plain (hplaced line hline) harray
        exact ⟨message, hread⟩
    obtain ⟨messages, hmessages⟩ := hok
    constructor
    · intro hagree
      refine .inr (fun line hline harray => ?_)
      obtain ⟨-, _, hsplit⟩ := lines_of_arrayForm (hplaced line hline) harray
      obtain ⟨e, he⟩ := mapM_error_of_mem (hframed line hline) hsplit
      rcases hagree with ⟨_, _, hread, -⟩ | ⟨_, -, hsplit'⟩
      · rw [hmessages] at hread
        cases hread
      · rw [he] at hsplit'
        cases hsplit'
    · intro hplain
      have hnone := hplain.resolve_left hrefused
      refine .inr ⟨messages, hmessages, ?_⟩
      rw [← hmessages]
      refine mapM_congr (fun framed hmem => ?_)
      obtain ⟨line, hline, rfl⟩ := List.mem_map.1 hmem
      obtain ⟨message, hread, hsplit⟩ := lines_of_plain (hplaced line hline) (hnone line hline)
      rw [hread, hsplit]

/-! ## A page in array form -/

namespace Sample

/-- A cancel whose fields stand in an array. -/
def arrayLine : Bytes := utf8 "\x7b\"Cancel\":[1,1000,5,3]\x7d"

/-- A reader of that line. -/
def arrayReader : Reader where
  number := fun _ => []
  parse := fun text =>
    if text = arrayLine then
      some (.obj [("Cancel", .arr [.int 1, .int 1000, .int 5, .int 3])])
    else none
  reason := fun _ => ""

end Sample

/-- One reader has the cancel, and the other refuses the page. -/
theorem array_form_disagrees :
    readNdjson Sample.arrayReader (Sample.arrayLine ++ [10]) =
        .ok [⟨⟨1, "Cancel", Sample.arrayLine⟩, .ok (.cancel ⟨1, 1000, 5, 3, none⟩)⟩] ∧
      splitThenParse Sample.arrayReader (Sample.arrayLine ++ [10]) =
        .error (.notAFeedMessage .notAMessage Sample.arrayLine) ∧
      ¬Agree (readNdjson Sample.arrayReader (Sample.arrayLine ++ [10]))
        (splitThenParse Sample.arrayReader (Sample.arrayLine ++ [10])) := by
  have hread : readNdjson Sample.arrayReader (Sample.arrayLine ++ [10]) =
      .ok [⟨⟨1, "Cancel", Sample.arrayLine⟩, .ok (.cancel ⟨1, 1000, 5, 3, none⟩)⟩] := by
    decide +kernel
  have hsplit : splitThenParse Sample.arrayReader (Sample.arrayLine ++ [10]) =
      .error (.notAFeedMessage .notAMessage Sample.arrayLine) := by
    decide +kernel
  refine ⟨hread, hsplit, ?_⟩
  rw [hread, hsplit]
  rintro (⟨_, _, herror, -⟩ | ⟨_, -, hok⟩)
  · cases herror
  · cases hok

end Wire
end VerifiableExchange

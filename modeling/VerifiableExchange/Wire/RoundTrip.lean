import VerifiableExchange.Wire.Text

/-!
# RoundTrip — what is written is read back

A message is read back out of its own text, up to the precision its numbers are read with, by the
envelope and by the message reader alike. Two messages with one text are one message.
-/

namespace VerifiableExchange
namespace Wire

open Lib JsonValue

/-- A number far from the edges of binary64. -/
def Modest (x : F64) : Prop := ∃ q, x.toRat? = some q ∧ |q| ≤ 18446744073709551616

def IsU64 (n : Int) : Prop := 0 ≤ n ∧ n < 18446744073709551616

theorem Modest.finite {x : F64} (h : Modest x) : x.isFinite = true :=
  F64.isFinite_iff.2 ⟨_, h.choose_spec.1⟩

/-- What `serde_json` documents: a finite number has a text of its own, which is a number and not a
whole one, and a text that was written is read back, its numbers with best-effort precision. -/
structure Serde.Sound (serde : Serde) (reread : F64 → F64) : Prop where
  telling : Telling serde.number IsU64 fun x => x.isFinite = true
  finite : ∀ {x : F64}, Modest x → (reread x).isFinite = true
  parse : ∀ {value : Value}, value.Admits IsU64 Modest →
    serde.parse (print serde.number value) = some (value.map reread)

/-! ## Messages that can be written -/

/-- The widths of a message's whole numbers, and a condition on the others. -/
def Bounded (number : F64 → Prop) : OrderMessage → Prop
  | .new m => m.id < 18446744073709551616 ∧ m.timestamp < 18446744073709551616 ∧
      number m.price ∧ number m.quantity
  | .cancel m => m.id < 18446744073709551616 ∧ m.timestamp < 18446744073709551616 ∧
      m.targetId < 18446744073709551616
  | .engineRule m => m.id < 18446744073709551616 ∧ m.timestamp < 18446744073709551616 ∧
      m.version < 4294967296
  | .listSymbol m => m.id < 18446744073709551616 ∧ m.timestamp < 18446744073709551616 ∧
      number m.priceStep ∧ number m.quantityStep
  | .delistSymbol m => m.id < 18446744073709551616 ∧ m.timestamp < 18446744073709551616

/-- A message that can be written and read back. -/
abbrev Fits : OrderMessage → Prop := Bounded Modest

/-- What a reader of a message's value needs of it. -/
abbrev Legible : OrderMessage → Prop := Bounded fun x => x.isFinite = true

/-- The message with every number replaced. -/
def mapNumbers (f : F64 → F64) : OrderMessage → OrderMessage
  | .new m => .new { m with price := f m.price, quantity := f m.quantity }
  | .listSymbol m =>
      .listSymbol { m with priceStep := f m.priceStep, quantityStep := f m.quantityStep }
  | msg => msg

section

variable (f : F64 → F64) (msg : OrderMessage)

@[simp] theorem mapNumbers_id : (mapNumbers f msg).id = msg.id := by cases msg <;> rfl

@[simp] theorem mapNumbers_account : (mapNumbers f msg).account = msg.account := by
  cases msg <;> rfl

@[simp] theorem mapNumbers_nonce : (mapNumbers f msg).nonce = msg.nonce := by cases msg <;> rfl

@[simp] theorem kind_mapNumbers : kind (mapNumbers f msg) = kind msg := by cases msg <;> rfl

end

/-! ## Optional fields -/

section

variable {key other : String} {value : Option Value} {rest : List (String × Value)}

theorem lookup_optional : (optional key value ++ rest).lookup key = value.or (rest.lookup key) := by
  cases value <;> simp [optional]

theorem lookup_optional_ne (h : other ≠ key) :
    (optional key value ++ rest).lookup other = rest.lookup other := by
  have hne : (other == key) = false := beq_eq_false_iff_ne.2 h
  cases value <;> simp [optional, List.lookup_cons, hne]

theorem mem_optional {field : String × Value} (h : field ∈ optional key value) :
    field.1 = key ∧ some field.2 = value := by
  cases value with
  | none => cases h
  | some v =>
      cases List.mem_singleton.1 h
      exact ⟨rfl, rfl⟩

theorem mapFields_optional (f : F64 → F64) :
    mapFields f (optional key value) = optional key (value.map (JsonValue.map f)) := by
  cases value <;> rfl

theorem admitsFields_optional {whole : Int → Prop} {float : F64 → Prop}
    (h : ∀ v ∈ value, v.Admits whole float) : AdmitsFields whole float (optional key value) := by
  cases value with
  | none => exact trivial
  | some v => exact ⟨h v rfl, trivial⟩

end

/-- Keys that are known, each of them once, are all read. -/
theorem known_eq {names : List String} {fields : List (String × Value)}
    (h : (fields.map Prod.fst).Sublist names) (hnames : names.Nodup) :
    known names (.obj fields) = some fields := by
  have hall : (fields.filter fun field => field.1 ∈ names) = fields := by
    rw [List.filter_eq_self]
    intro field hfield
    exact decide_eq_true (h.subset (List.mem_map_of_mem hfield))
  rw [known]
  simp only [hall, h.nodup hnames, if_true]

theorem keys_optional (key : String) (value : Option Value) :
    ((optional key value).map Prod.fst).Sublist [key] := by
  cases value
  · exact List.nil_sublist _
  · exact List.Sublist.refl _

/-! ## The value of a message -/

theorem mapFields_nonceField (f : F64 → F64) (nonce : Option String) :
    mapFields f (nonceField nonce) = nonceField nonce := by
  cases nonce <;> rfl

theorem mapFields_termFields (f : F64 → F64) (terms : Terms) :
    mapFields f (termFields terms) = termFields terms := by
  simp only [termFields, mapFields_append, mapFields_optional]
  split_ifs <;> rfl

theorem messageValue_mapNumbers (f : F64 → F64) (msg : OrderMessage) :
    messageValue (mapNumbers f msg) = (messageValue msg).map f := by
  have hfields : fields (mapNumbers f msg) = mapFields f (fields msg) := by
    cases msg <;>
      simp only [mapNumbers, fields, mapFields, mapFields_append, mapFields_nonceField,
        mapFields_termFields, JsonValue.map, whole]
  simp only [messageValue, tagged, JsonValue.map, mapFields, kind_mapNumbers, hfields]

/-- A whole number of a message is written as one. -/
theorem isU64_nat {n : Nat} (h : n < 18446744073709551616) : IsU64 n := ⟨by omega, by omega⟩

theorem admits_nonceField (number : F64 → Prop) (nonce : Option String) :
    AdmitsFields IsU64 number (nonceField nonce) := by
  cases nonce
  · trivial
  · exact ⟨trivial, trivial⟩

theorem admits_termFields (number : F64 → Prop) (terms : Terms) :
    AdmitsFields IsU64 number (termFields terms) := by
  simp only [termFields, admitsFields_append]
  refine ⟨admitsFields_optional ?_, admitsFields_optional ?_, admitsFields_optional ?_⟩ <;>
    split_ifs <;> simp [Admits]

theorem Bounded.admits {number : F64 → Prop} {msg : OrderMessage} (h : Bounded number msg) :
    (messageValue msg).Admits IsU64 number := by
  have haccount : IsU64 (msg.account.val : Int) := isU64_nat (by omega)
  refine ⟨?_, trivial⟩
  cases msg with
  | new m =>
      obtain ⟨hid, htimestamp, hprice, hquantity⟩ := h
      refine ⟨isU64_nat hid, isU64_nat htimestamp, haccount, trivial, trivial, hprice, hquantity, ?_⟩
      exact (admitsFields_append _ _).2 ⟨admits_nonceField _ _, admits_termFields _ _⟩
  | cancel m =>
      obtain ⟨hid, htimestamp, htarget⟩ := h
      exact ⟨isU64_nat hid, isU64_nat htimestamp, haccount, isU64_nat htarget, admits_nonceField _ _⟩
  | engineRule m =>
      obtain ⟨hid, htimestamp, hversion⟩ := h
      refine ⟨isU64_nat hid, isU64_nat htimestamp, haccount, isU64_nat (by omega), ?_⟩
      exact (admitsFields_append _ _).2 ⟨admits_nonceField _ _, trivial, trivial, trivial⟩
  | listSymbol m =>
      obtain ⟨hid, htimestamp, hprice, hquantity⟩ := h
      refine ⟨isU64_nat hid, isU64_nat htimestamp, haccount, trivial, hprice, hquantity, ?_⟩
      exact (admitsFields_append _ _).2 ⟨admits_nonceField _ _, trivial, trivial, trivial⟩
  | delistSymbol m =>
      obtain ⟨hid, htimestamp⟩ := h
      refine ⟨isU64_nat hid, isU64_nat htimestamp, haccount, trivial, ?_⟩
      exact (admitsFields_append _ _).2 ⟨admits_nonceField _ _, trivial, trivial, trivial⟩

/-! ## The message read back -/

theorem readU64_whole {n : Nat} (h : n < 18446744073709551616) : readU64 (whole n) = some n :=
  if_pos h

theorem readU32_whole {n : Nat} (h : n < 4294967296) : readU32 (whole n) = some n := if_pos h

theorem readAccount_whole (account : AccountId) : readAccount (whole account.val) = some account :=
  dif_pos account.isLt

theorem readSide_name (side : Side) : readSide (.str (sideName side)) = some side := by
  cases side <;> rfl

theorem readF64_float {x : F64} (h : x.isFinite = true) : readF64 (.float x) = some x := by
  rw [readF64, if_pos h]

theorem lookup_nonceField {rest : List (String × Value)} {nonce : Option String}
    (h : rest.lookup "nonce" = none) :
    defaulted readNonce none (nonceField nonce ++ rest) "nonce" = some nonce := by
  rw [defaulted, nonceField, lookup_optional, h]
  cases nonce <;> rfl

theorem lookup_nonceField_ne {rest : List (String × Value)} {nonce : Option String} {key : String}
    (h : key ≠ "nonce") : (nonceField nonce ++ rest).lookup key = rest.lookup key :=
  lookup_optional_ne h

/-- The terms left out are the defaults. -/
theorem read_termFields (terms : Terms) :
    (termFields terms).lookup "nonce" = none ∧
    defaulted readOrderType .limit (termFields terms) "order_type" = some terms.orderType ∧
    defaulted readTimeInForce .goodTillCancel (termFields terms) "time_in_force" =
      some terms.timeInForce ∧
    defaulted readBool false (termFields terms) "post_only" = some terms.postOnly := by
  obtain ⟨orderType, timeInForce, postOnly⟩ := terms
  cases orderType <;> cases timeInForce <;> cases postOnly <;>
    exact ⟨by decide, rfl, rfl, rfl⟩

section

variable {α : Type} {read : Value → Option α} {default : α} {key other : String} {value : Value}
  {rest : List (String × Value)}

theorem required_same : required read ((key, value) :: rest) key = read value := by
  simp [required]

theorem required_ne (h : (other == key) = false) :
    required read ((key, value) :: rest) other = required read rest other := by
  simp [required, List.lookup_cons, h]

theorem defaulted_ne (h : (other == key) = false) :
    defaulted read default ((key, value) :: rest) other = defaulted read default rest other := by
  simp [defaulted, List.lookup_cons, h]

theorem required_nonceField {nonce : Option String} (h : (other == "nonce") = false) :
    required read (nonceField nonce ++ rest) other = required read rest other := by
  rw [required, nonceField, lookup_optional_ne (beq_eq_false_iff_ne.1 h), required]

theorem defaulted_nonceField {nonce : Option String} (h : (other == "nonce") = false) :
    defaulted read default (nonceField nonce ++ rest) other = defaulted read default rest other := by
  rw [defaulted, nonceField, lookup_optional_ne (beq_eq_false_iff_ne.1 h), defaulted]

end

theorem keys_nonceField (nonce : Option String) :
    ((nonceField nonce).map Prod.fst).Sublist ["nonce"] := keys_optional _ _

theorem keys_termFields (terms : Terms) :
    ((termFields terms).map Prod.fst).Sublist ["order_type", "time_in_force", "post_only"] := by
  simp only [termFields, List.map_append]
  exact (keys_optional _ _).append ((keys_optional _ _).append (keys_optional _ _))

/-- The nonce, in front of two fields that are always there. -/
theorem keys_operator (nonce : Option String) (publicKey signature : Value) :
    ((nonceField nonce ++ [("public_key", publicKey), ("signature", signature)]).map
      Prod.fst).Sublist ["nonce", "public_key", "signature"] := by
  rw [List.map_append]
  exact (keys_nonceField nonce).append (List.Sublist.refl _)

theorem nonce_operator (nonce : Option String) (publicKey signature : Value) :
    defaulted readNonce none
      (nonceField nonce ++ [("public_key", publicKey), ("signature", signature)]) "nonce" =
        some nonce :=
  lookup_nonceField (by simp [List.lookup_cons])

theorem readNew_fields {m : NewMessage} (h : Legible (.new m)) :
    readNew (.obj (fields (.new m))) = some (.new m) := by
  obtain ⟨hid, htimestamp, hprice, hquantity⟩ := h
  obtain ⟨hnone, horderType, htimeInForce, hpostOnly⟩ := read_termFields m.terms
  have hkeys : ((fields (.new m)).map Prod.fst).Sublist ["id", "timestamp", "account", "symbol",
      "side", "price", "quantity", "nonce", "order_type", "time_in_force", "post_only"] := by
    simp only [fields, List.map_cons, List.map_append, List.cons_sublist_cons]
    exact (keys_nonceField m.nonce).append (keys_termFields m.terms)
  rw [readNew, known_eq hkeys (by simp)]
  simp only [fields]
  simp [required_same, required_ne, defaulted_ne, defaulted_nonceField, readU64_whole hid,
    readU64_whole htimestamp, readAccount_whole, readString, readSide_name, readF64_float hprice,
    readF64_float hquantity, lookup_nonceField hnone, horderType, htimeInForce, hpostOnly]

theorem readCancel_fields {m : CancelMessage} (h : Legible (.cancel m)) :
    readCancel (.obj (fields (.cancel m))) = some (.cancel m) := by
  obtain ⟨hid, htimestamp, htarget⟩ := h
  have hkeys : ((fields (.cancel m)).map Prod.fst).Sublist
      ["id", "timestamp", "account", "target_id", "nonce"] := by
    simp only [fields, List.map_cons, List.cons_sublist_cons]
    exact keys_nonceField m.nonce
  have hnonce := @lookup_nonceField [] m.nonce rfl
  rw [List.append_nil] at hnonce
  rw [readCancel, known_eq hkeys (by simp)]
  simp only [fields]
  simp [required_same, required_ne, defaulted_ne, readU64_whole hid, readU64_whole htimestamp,
    readU64_whole htarget, readAccount_whole, hnonce]

theorem readEngineRule_fields {m : EngineRuleMessage} (h : Legible (.engineRule m)) :
    readEngineRule (.obj (fields (.engineRule m))) = some (.engineRule m) := by
  obtain ⟨hid, htimestamp, hversion⟩ := h
  have hkeys : ((fields (.engineRule m)).map Prod.fst).Sublist
      ["id", "timestamp", "account", "version", "nonce", "public_key", "signature"] := by
    simp only [fields, List.map_cons, List.cons_sublist_cons]
    exact keys_operator _ _ _
  rw [readEngineRule, known_eq hkeys (by simp)]
  simp only [fields]
  simp [required_same, required_ne, defaulted_ne, required_nonceField, readU64_whole hid,
    readU64_whole htimestamp, readU32_whole hversion, readAccount_whole, readString,
    nonce_operator]

theorem readListSymbol_fields {m : ListSymbolMessage} (h : Legible (.listSymbol m)) :
    readListSymbol (.obj (fields (.listSymbol m))) = some (.listSymbol m) := by
  obtain ⟨hid, htimestamp, hprice, hquantity⟩ := h
  have hkeys : ((fields (.listSymbol m)).map Prod.fst).Sublist ["id", "timestamp", "account",
      "symbol", "price_step", "quantity_step", "nonce", "public_key", "signature"] := by
    simp only [fields, List.map_cons, List.cons_sublist_cons]
    exact keys_operator _ _ _
  rw [readListSymbol, known_eq hkeys (by simp)]
  simp only [fields]
  simp [required_same, required_ne, defaulted_ne, required_nonceField, readU64_whole hid,
    readU64_whole htimestamp, readF64_float hprice, readF64_float hquantity, readAccount_whole,
    readString, nonce_operator]

theorem readDelistSymbol_fields {m : DelistSymbolMessage} (h : Legible (.delistSymbol m)) :
    readDelistSymbol (.obj (fields (.delistSymbol m))) = some (.delistSymbol m) := by
  obtain ⟨hid, htimestamp⟩ := h
  have hkeys : ((fields (.delistSymbol m)).map Prod.fst).Sublist ["id", "timestamp", "account",
      "symbol", "nonce", "public_key", "signature"] := by
    simp only [fields, List.map_cons, List.cons_sublist_cons]
    exact keys_operator _ _ _
  rw [readDelistSymbol, known_eq hkeys (by simp)]
  simp only [fields]
  simp [required_same, required_ne, defaulted_ne, required_nonceField, readU64_whole hid,
    readU64_whole htimestamp, readAccount_whole, readString, nonce_operator]

theorem readMessageValue_messageValue {msg : OrderMessage} (h : Legible msg) :
    readMessageValue (messageValue msg) = some msg := by
  cases msg with
  | new m => exact readNew_fields h
  | cancel m => exact readCancel_fields h
  | engineRule m => exact readEngineRule_fields h
  | listSymbol m => exact readListSymbol_fields h
  | delistSymbol m => exact readDelistSymbol_fields h

/-! ## The envelope read back -/

theorem readBody_fields (msg : OrderMessage) (h : msg.id < 18446744073709551616) :
    readBody (kind msg) (.obj (fields msg)) = some ⟨kind msg, msg.id, msg.account, msg.nonce⟩ := by
  have hread : ∀ nonce : Option String, ∀ rest : List (String × Value),
      ((nonceField nonce ++ rest).filter fun field => field.1 ∈ ["id", "account", "nonce"]) =
        nonceField nonce ++ (rest.filter fun field => field.1 ∈ ["id", "account", "nonce"]) := by
    intro nonce rest
    cases nonce <;> simp [nonceField, optional]
  have hterms : ∀ terms : Terms,
      ((termFields terms).filter fun field => field.1 ∈ ["id", "account", "nonce"]) = [] := by
    intro terms
    simp only [termFields, optional, List.filter_append, List.append_eq_nil_iff]
    refine ⟨?_, ?_, ?_⟩ <;> split_ifs <;> simp
  -- Of every kind the reader keeps the id, the account and the nonce.
  have hknown : known ["id", "account", "nonce"] (.obj (fields msg)) =
      some (("id", whole msg.id) :: ("account", whole msg.account.val) :: nonceField msg.nonce) := by
    have hfilter : ((fields msg).filter fun field => field.1 ∈ ["id", "account", "nonce"]) =
        ("id", whole msg.id) :: ("account", whole msg.account.val) :: nonceField msg.nonce := by
      have hlast := fun nonce => hread nonce []
      simp only [List.append_nil, List.filter_nil] at hlast
      cases msg <;> simp only [fields, List.filter_cons, hread, hterms, hlast] <;>
        simp [OrderMessage.id, OrderMessage.account, OrderMessage.nonce]
    have hnodup : ((("id", whole msg.id) :: ("account", whole msg.account.val) ::
        nonceField msg.nonce).map Prod.fst).Nodup := by
      cases msg.nonce <;> simp [nonceField, optional]
    rw [known]
    simp only [hfilter, hnodup, if_true]
  have hnonce := @lookup_nonceField [] msg.nonce rfl
  rw [List.append_nil] at hnonce
  have haccount : readAnyAccount (whole msg.account.val) = some (some msg.account) := by
    rw [readAnyAccount, readAccount_whole]
    rfl
  have hfirst : defaulted readAnyAccount none (("id", whole msg.id) ::
      ("account", whole msg.account.val) :: nonceField msg.nonce) "account" =
        some (some msg.account) := by
    simpa [defaulted, List.lookup_cons] using haccount
  rw [readBody, hknown]
  simp [required_same, hfirst, defaulted_ne, readU64_whole h, hnonce]

/-- The envelope of a message's own value. -/
theorem envelopeValue_messageValue {msg : OrderMessage} (h : msg.id < 18446744073709551616) :
    envelopeValue (messageValue msg) = .ok ⟨kind msg, msg.id, msg.account, msg.nonce⟩ := by
  rw [messageValue, tagged, envelopeValue, readBodies, readBody_fields msg h]
  rfl

/-! ## The text of a message -/

theorem Bounded.id_lt {number : F64 → Prop} {msg : OrderMessage} (h : Bounded number msg) :
    msg.id < 18446744073709551616 := by
  cases msg <;> exact h.1

namespace Serde.Sound

variable {serde : Serde} {reread : F64 → F64}

theorem legible (hserde : serde.Sound reread) {msg : OrderMessage} (h : Fits msg) :
    Legible (mapNumbers reread msg) := by
  cases msg with
  | new m => exact ⟨h.1, h.2.1, hserde.finite h.2.2.1, hserde.finite h.2.2.2⟩
  | listSymbol m => exact ⟨h.1, h.2.1, hserde.finite h.2.2.1, hserde.finite h.2.2.2⟩
  | cancel m => exact h
  | engineRule m => exact h
  | delistSymbol m => exact h

theorem parse_messageText (hserde : serde.Sound reread) {msg : OrderMessage} (h : Fits msg) :
    serde.parse (messageText serde msg) = some (messageValue (mapNumbers reread msg)) := by
  rw [messageText, hserde.parse h.admits, messageValue_mapNumbers]

/-- A written message is read back, its numbers as `serde_json` reads them. -/
theorem readMessage_text (hserde : serde.Sound reread) {msg : OrderMessage} (h : Fits msg) :
    readMessage serde (messageText serde msg) = some (mapNumbers reread msg) := by
  rw [readMessage, hserde.parse_messageText h]
  exact readMessageValue_messageValue (hserde.legible h)

/-- Every reader of a written message reads the same envelope. -/
theorem envelope_text (hserde : serde.Sound reread) {msg : OrderMessage} (h : Fits msg) :
    envelope serde (messageText serde msg) = .ok ⟨kind msg, msg.id, msg.account, msg.nonce⟩ := by
  rw [envelope, hserde.parse_messageText h]
  have hid : (mapNumbers reread msg).id < 18446744073709551616 := by
    rw [mapNumbers_id]
    exact h.id_lt
  simpa using envelopeValue_messageValue hid

end Serde.Sound

/-! ## A reader of exactly what was written -/

/-- The bits of a number as one whole number. -/
def bitsOf : F64 → Nat
  | .finite negative exponent fraction =>
      2 * (exponent.val + 2047 * fraction.val) + (if negative then 1 else 0)
  | _ => 0

/-- A writer of numbers that is told from the whole numbers of a message by its sign. -/
def bitsText (x : F64) : Bytes := Json.printInt (Int.negSucc (bitsOf x))

open Classical in
/-- The serde that reads the texts of admitted values, and no other text. -/
noncomputable def Serde.exact : Serde where
  number := bitsText
  parse := fun text =>
    if h : ∃ value : Value, value.Admits IsU64 Modest ∧ print bitsText value = text then
      some h.choose
    else none

end Wire
end VerifiableExchange

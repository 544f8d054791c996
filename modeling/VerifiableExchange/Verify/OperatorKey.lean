import VerifiableExchange.Matcher.Authority

/-!
# OperatorKey — the checker's own reading of the operator's messages

The checker keeps its own key and compares the field itself. It shares with the exchange only the
bytes one signature covers, so the two can disagree about a message; they do not.
-/

namespace VerifiableExchange

open Lib Operator

namespace Verify

/-- Why an operator message is not the operator's. -/
inductive Refusal where
  | noReadableKey
  | anotherKey (named inForce : Bytes)
  | noReadableSignature
  | noStatement
  | notSigned (key : Bytes) (statement : String)
  deriving DecidableEq

/-- The operator key a walk of the log has reached, and what it made of the operator messages. -/
structure Operator where
  inForce : Option Bytes
  /-- The keys the log ran under, in the order they appeared. -/
  used : List Bytes
  checked : Nat
  refused : List (OrderId × Refusal)
  deriving DecidableEq

namespace Operator

def new : Operator := ⟨none, [], 0, []⟩

def refuse (op : Operator) (id : OrderId) (why : Refusal) : Operator :=
  { op with refused := op.refused ++ [(id, why)] }

/-- Takes the key of the first message that verifies. -/
def takeKey (op : Operator) (inForce : Bytes) : Operator :=
  if op.inForce.isNone then { op with inForce := some inForce, used := op.used ++ [inForce] } else op

/-- Whether this operator message may act, and what the walk keeps of it. -/
def accepts (env : Primitives) (op : Operator) (id : OrderId) (message : OrderMessage)
    (session : String) : Operator × Bool :=
  match message.fieldsOf with
  | none => (op, true)
  | some (named, signature) =>
      let op := { op with checked := op.checked + 1 }
      match fromHex 32 (trim named) with
      | none => (op.refuse id .noReadableKey, false)
      | some named =>
          let inForce := op.inForce.getD named
          if named ≠ inForce then (op.refuse id (.anotherKey named inForce), false)
          else
            match fromHex 64 (trim signature) with
            | none => (op.refuse id .noReadableSignature, false)
            | some signature =>
                match kindAndFields message with
                | none => (op.refuse id .noStatement, false)
                | some (kind, fields) =>
                    let statement := operatorStatement kind session fields
                    if env.isVerifyingKey inForce && env.verifyStrict inForce statement signature
                    then (op.takeKey inForce, true)
                    else (op.refuse id (.notSigned inForce statement), false)

/-- The key in force is a key signatures can be checked against. -/
def Usable (env : Primitives) (op : Operator) : Prop :=
  ∀ key, op.inForce = some key → env.isVerifyingKey key = true

theorem accepts_of_trader (env : Primitives) (op : Operator) (id : OrderId)
    {message : OrderMessage} (h : message.fieldsOf = none) (session : String) :
    op.accepts env id message session = (op, true) := by
  rw [accepts, h]

@[simp] theorem inForce_refuse (op : Operator) (id : OrderId) (why : Refusal) :
    (op.refuse id why).inForce = op.inForce := rfl

@[simp] theorem inForce_takeKey (op : Operator) (key : Bytes) :
    (op.takeKey key).inForce = op.inForce.or (some key) := by
  unfold takeKey
  cases h : op.inForce with
  | none => rfl
  | some k => simp [h]

/-- Whether the signature on a message verifies under a key, whatever key the message names. -/
def signs (env : Primitives) (message : OrderMessage) (session signature : String) (key : Bytes) :
    Bool :=
  match fromHex 64 (trim signature), kindAndFields message with
  | some signature, some (kind, fields) =>
      env.verifyStrict key (operatorStatement kind session fields) signature
  | _, _ => false

section

variable {env : Primitives} {message : OrderMessage} {session publicKey signature : String}
  (hfields : message.fieldsOf = some (publicKey, signature))

include hfields

theorem verify_of_unreadable (hnamed : fromHex 32 (trim publicKey) = none) (key : Bytes) :
    verify env message session key = false := by
  simp only [verify, hfields, hnamed]

theorem verify_of_named {named : Bytes} (hnamed : fromHex 32 (trim publicKey) = some named)
    (key : Bytes) :
    verify env message session key = (decide (named = key) && signs env message session signature key) := by
  simp only [verify, hfields, hnamed, signs]
  by_cases h : named = key
  · subst h
    cases fromHex 64 (trim signature) <;> cases kindAndFields message <;> simp
  · simp [h]

theorem namedKey_of_named {named : Bytes} (hnamed : fromHex 32 (trim publicKey) = some named) :
    namedKey env message = if env.isVerifyingKey named then some named else none := by
  simp only [namedKey, hfields, hnamed]

/-- A message whose key can be read acts under the key in force, if it names it and verifies. -/
theorem signedUnder_of_named {named : Bytes} (hnamed : fromHex 32 (trim publicKey) = some named)
    {pinned : Option Bytes} (hpinned : ∀ key, pinned = some key → env.isVerifyingKey key = true) :
    signedUnder env session pinned message =
      if named = pinned.getD named ∧ env.isVerifyingKey named = true ∧
        signs env message session signature named = true then some named else none := by
  cases pinned with
  | some key =>
      rw [signedUnder_some, verify_of_named hfields hnamed]
      by_cases h : named = key
      · subst h
        simp [hpinned named rfl]
      · simp [h]
  | none =>
      rw [signedUnder, Option.none_or, namedKey_of_named hfields hnamed]
      by_cases h : env.isVerifyingKey named = true
      · rw [if_pos h, Option.filter_some, verify_of_named hfields hnamed]
        simp [h]
      · simp [h]

end

/-- The checker accepts the messages the exchange accepts, and runs under the same key. -/
theorem accepts_eq {env : Primitives} {op : Operator} (hop : op.Usable env) (id : OrderId)
    {message : OrderMessage} (h : message.fieldsOf ≠ none) (session : String) :
    (op.accepts env id message session).2 =
        (signedUnder env session op.inForce message).isSome ∧
      (op.accepts env id message session).1.inForce =
        (signedUnder env session op.inForce message).or op.inForce := by
  obtain ⟨⟨publicKey, signature⟩, hfields⟩ := Option.ne_none_iff_exists'.1 h
  unfold accepts
  simp only [hfields]
  cases hnamed : fromHex 32 (trim publicKey) with
  | none =>
      have hnone : signedUnder env session op.inForce message = none :=
        Option.filter_eq_none_iff.2
          (fun key _ => by rw [verify_of_unreadable hfields hnamed]; exact Bool.false_ne_true)
      rw [hnone]
      exact ⟨rfl, rfl⟩
  | some named =>
      rw [signedUnder_of_named hfields hnamed hop]
      by_cases hsame : named = op.inForce.getD named
      · have hinForce : (op.inForce.or (some named)) = some named := by
          cases hpinned : op.inForce with
          | none => rfl
          | some key =>
              rw [hpinned] at hsame
              exact congrArg some hsame.symm
        dsimp only
        rw [← hsame]
        simp only [ne_eq, not_true_eq_false, if_false, true_and]
        cases hsignature : fromHex 64 (trim signature) with
        | none => simp [signs, hsignature]
        | some bytes =>
            cases hkind : kindAndFields message with
            | none => simp [signs, hsignature, hkind]
            | some statement =>
                have hsigns : signs env message session signature named =
                    env.verifyStrict named
                      (operatorStatement statement.1 session statement.2) bytes := by
                  simp only [signs, hsignature, hkind]
                rw [hsigns]
                by_cases hverified : env.isVerifyingKey named = true ∧ env.verifyStrict named
                    (operatorStatement statement.1 session statement.2) bytes = true
                · simp [hverified, hinForce]
                · simp only [Bool.and_eq_true, hverified, if_false]
                  exact ⟨rfl, rfl⟩
      · simp only [if_pos hsame, hsame, false_and, if_false]
        exact ⟨rfl, rfl⟩

/-- Whatever the message, the key the walk keeps is the one the log names. -/
theorem inForce_accepts {env : Primitives} {op : Operator} (hop : op.Usable env) (id : OrderId)
    (message : OrderMessage) (session : String) :
    (op.accepts env id message session).1.inForce =
      op.inForce.or (signedUnder env session none message) := by
  by_cases h : message.fieldsOf = none
  · rw [accepts_of_trader env op id h, signedUnder_of_trader h, Option.or_none]
  · rw [(accepts_eq hop id h session).2, signedUnder_or]

end Operator
end Verify
end VerifiableExchange

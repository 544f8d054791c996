import VerifiableExchange.Lib.Json

/-!
# JsonValue — JSON texts with floating-point numbers

The values a JSON text stands for, over any type `F` of floating-point numbers, and the compact text
of each. How a number of `F` is written is a parameter. Where its numbers are told apart, a text
tells the value.
-/

namespace VerifiableExchange
namespace Lib

inductive JsonValue (F : Type)
  | null
  | bool (b : Bool)
  | int (n : Int)
  | float (x : F)
  | str (text : String)
  | arr (items : List (JsonValue F))
  | obj (fields : List (String × JsonValue F))

namespace JsonValue

variable {F : Type}

/-! ## Printing -/

section

variable (number : F → List UInt8)

def printKey (key : String) : List UInt8 := Json.printStr (utf8 key)

mutual

/-- The compact text of a value. -/
def print : JsonValue F → List UInt8
  | .null => [110, 117, 108, 108]
  | .bool true => [116, 114, 117, 101]
  | .bool false => [102, 97, 108, 115, 101]
  | .int n => Json.printInt n
  | .float x => number x
  | .str text => Json.printStr (utf8 text)
  | .arr [] => [91, 93]
  | .arr (item :: items) => 91 :: (print item ++ printItems items)
  | .obj [] => [123, 125]
  | .obj ((key, value) :: fields) => 123 :: (printKey key ++ 58 :: (print value ++ printFields fields))

/-- The items after the first one, and the closing bracket. -/
def printItems : List (JsonValue F) → List UInt8
  | [] => [93]
  | item :: items => 44 :: (print item ++ printItems items)

/-- The fields after the first one, and the closing brace. -/
def printFields : List (String × JsonValue F) → List UInt8
  | [] => [125]
  | (key, value) :: fields => 44 :: (printKey key ++ 58 :: (print value ++ printFields fields))

end

end

mutual

/-- Every number of `F` replaced. -/
def map (f : F → F) : JsonValue F → JsonValue F
  | .null => .null
  | .bool b => .bool b
  | .int n => .int n
  | .float x => .float (f x)
  | .str text => .str text
  | .arr items => .arr (mapItems f items)
  | .obj fields => .obj (mapFields f fields)

def mapItems (f : F → F) : List (JsonValue F) → List (JsonValue F)
  | [] => []
  | item :: items => map f item :: mapItems f items

def mapFields (f : F → F) : List (String × JsonValue F) → List (String × JsonValue F)
  | [] => []
  | (key, value) :: fields => (key, map f value) :: mapFields f fields

end

mutual

/-- Every whole number and every number of `F` in a value is one the caller admits. -/
def Admits (whole : Int → Prop) (float : F → Prop) : JsonValue F → Prop
  | .null => True
  | .bool _ => True
  | .int n => whole n
  | .float x => float x
  | .str _ => True
  | .arr items => AdmitsItems whole float items
  | .obj fields => AdmitsFields whole float fields

def AdmitsItems (whole : Int → Prop) (float : F → Prop) : List (JsonValue F) → Prop
  | [] => True
  | item :: items => Admits whole float item ∧ AdmitsItems whole float items

def AdmitsFields (whole : Int → Prop) (float : F → Prop) : List (String × JsonValue F) → Prop
  | [] => True
  | (_, value) :: fields => Admits whole float value ∧ AdmitsFields whole float fields

end

mutual

theorem Admits.mono {whole : Int → Prop} {float weaker : F → Prop} (h : ∀ x, float x → weaker x) :
    ∀ {value : JsonValue F}, value.Admits whole float → value.Admits whole weaker
  | .null, _ => trivial
  | .bool _, _ => trivial
  | .int _, hvalue => hvalue
  | .float x, hvalue => h x hvalue
  | .str _, _ => trivial
  | .arr _, hvalue => AdmitsItems.mono h hvalue
  | .obj _, hvalue => AdmitsFields.mono h hvalue

theorem AdmitsItems.mono {whole : Int → Prop} {float weaker : F → Prop}
    (h : ∀ x, float x → weaker x) :
    ∀ {items : List (JsonValue F)}, AdmitsItems whole float items → AdmitsItems whole weaker items
  | [], _ => trivial
  | _ :: _, hitems => ⟨Admits.mono h hitems.1, AdmitsItems.mono h hitems.2⟩

theorem AdmitsFields.mono {whole : Int → Prop} {float weaker : F → Prop}
    (h : ∀ x, float x → weaker x) : ∀ {fields : List (String × JsonValue F)},
      AdmitsFields whole float fields → AdmitsFields whole weaker fields
  | [], _ => trivial
  | _ :: _, hfields => ⟨Admits.mono h hfields.1, AdmitsFields.mono h hfields.2⟩

end

@[simp] theorem mapFields_append (f : F → F) (a b : List (String × JsonValue F)) :
    mapFields f (a ++ b) = mapFields f a ++ mapFields f b := by
  induction a with
  | nil => rfl
  | cons field rest ih => simp only [List.cons_append, mapFields, ih]

@[simp] theorem admitsFields_append {whole : Int → Prop} {float : F → Prop}
    (a b : List (String × JsonValue F)) :
    AdmitsFields whole float (a ++ b) ↔ AdmitsFields whole float a ∧ AdmitsFields whole float b := by
  induction a with
  | nil => simp [AdmitsFields]
  | cons field rest ih => simp only [List.cons_append, AdmitsFields, ih, and_assoc]

/-! ## Looking a field up -/

/-- The values under one key, in the order of the text. -/
def under (fields : List (String × JsonValue F)) (key : String) : List (JsonValue F) :=
  (fields.filter fun field => field.1 = key).map Prod.snd

/-! ## Plain values -/

/-- A value with no value inside. -/
def plain : JsonValue F → Bool
  | .arr _ => false
  | .obj _ => false
  | _ => true

/-- The bytes that end a plain value: a comma, a closing bracket or a closing brace. -/
def Closes (b : UInt8) : Prop := b = 44 ∨ b = 93 ∨ b = 125

instance (b : UInt8) : Decidable (Closes b) := inferInstanceAs (Decidable (_ ∨ _))

/-- What may follow a plain value. -/
def Ended (r : List UInt8) : Prop := ∃ b tail, r = b :: tail ∧ Closes b

/-- A text with no quote in front, and nothing in it that ends a value. -/
def Bare (text : List UInt8) : Prop := text.head? ≠ some 34 ∧ ∀ b ∈ text, ¬Closes b

theorem bare_printInt (n : Int) : Bare (Json.printInt n) := by
  obtain ⟨b, tail, hcons, hstart⟩ := Json.printInt_cons n
  have hdigit : ∀ b : UInt8, 48 ≤ b ∧ b ≤ 57 → ¬Closes b := by
    rintro b hb (rfl | rfl | rfl) <;> exact absurd hb (by decide)
  constructor
  · rw [hcons]
    intro h
    cases h
    exact absurd hstart (by decide)
  · intro c hc
    cases n with
    | ofNat n => exact hdigit c (Json.digit_of_mem_natDigits hc)
    | negSucc n =>
        rcases List.mem_cons.1 hc with rfl | hc
        · decide
        · exact hdigit c (Json.digit_of_mem_natDigits hc)

/-- A plain value is written bare, or it is a string. -/
theorem bare_or_str {number : F → List UInt8} (hnumber : ∀ x, Bare (number x)) :
    ∀ {value : JsonValue F}, value.plain = true →
      Bare (print number value) ∨ ∃ text, value = .str text
  | .null, _ => .inl (by unfold print Bare; decide +kernel)
  | .bool true, _ => .inl (by unfold print Bare; decide +kernel)
  | .bool false, _ => .inl (by unfold print Bare; decide +kernel)
  | .int n, _ => .inl (by rw [print]; exact bare_printInt n)
  | .float x, _ => .inl (by rw [print]; exact hnumber x)
  | .str text, _ => .inr ⟨text, rfl⟩

theorem Ended.head {r : List UInt8} (h : Ended r) : ∀ b ∈ r.head?, ¬¬Closes b := by
  obtain ⟨b, tail, rfl, hb⟩ := h
  intro c hc
  cases hc
  exact not_not_intro hb

/-- A plain value ends where its text says. -/
theorem plain_read {number : F → List UInt8} (hnumber : ∀ x, Bare (number x))
    {value value' : JsonValue F} {r r' : List UInt8} (hplain : value.plain = true)
    (hplain' : value'.plain = true) (hr : Ended r) (hr' : Ended r')
    (h : print number value ++ r = print number value' ++ r') :
    print number value = print number value' ∧ r = r' := by
  -- A string starts with a quote, and nothing else does, not even what follows a value.
  have hquote : ∀ {text : String} {t s s' : List UInt8}, Bare t → Ended s' →
      Json.printStr (utf8 text) ++ s ≠ t ++ s' := by
    intro text t s s' ht hs' heq
    obtain ⟨b, tail, rfl, hb⟩ := hs'
    cases t with
    | nil =>
        rw [Json.printStr, List.cons_append, List.nil_append] at heq
        exact absurd ((List.cons.inj heq).1 ▸ hb) (by decide)
    | cons c t =>
        rw [Json.printStr, List.cons_append, List.cons_append] at heq
        exact ht.1 (congrArg some (List.cons.inj heq).1.symm)
  rcases bare_or_str hnumber hplain with hbare | ⟨text, rfl⟩ <;>
    rcases bare_or_str hnumber hplain' with hbare' | ⟨text', rfl⟩
  · exact Json.run_unique hbare.2 hbare'.2 hr.head hr'.head h
  · rw [print] at h
    exact absurd h.symm (hquote hbare hr)
  · rw [print] at h
    exact absurd h (hquote hbare' hr')
  · simp only [print] at h ⊢
    obtain ⟨htext, hrest⟩ := Json.printStr_read h
    rw [htext]
    exact ⟨rfl, hrest⟩

theorem printKey_read {a b : String} {r r' : List UInt8}
    (h : printKey a ++ r = printKey b ++ r') : a = b ∧ r = r' :=
  (Json.printStr_read h).imp_left utf8_inj

theorem ended_printFields (number : F → List UInt8) (fields : List (String × JsonValue F))
    (r : List UInt8) : Ended (printFields number fields ++ r) := by
  rcases fields with - | ⟨⟨key, value⟩, rest⟩
  · exact ⟨125, r, by rw [printFields]; rfl, by decide⟩
  · exact ⟨44, _, by rw [printFields]; rfl, by decide⟩

/-- An object of plain values under one key, as an enumeration with named fields is written. -/
def tagged (tag : String) (fields : List (String × JsonValue F)) : JsonValue F :=
  .obj [(tag, .obj fields)]

/-! ## Any value -/

mutual

@[simp] theorem map_id : ∀ value : JsonValue F, map id value = value
  | .null => rfl
  | .bool _ => rfl
  | .int _ => rfl
  | .float _ => rfl
  | .str _ => rfl
  | .arr items => congrArg arr (mapItems_id items)
  | .obj fields => congrArg obj (mapFields_id fields)

theorem mapItems_id : ∀ items : List (JsonValue F), mapItems id items = items
  | [] => rfl
  | item :: items => congrArg₂ List.cons (map_id item) (mapItems_id items)

theorem mapFields_id : ∀ fields : List (String × JsonValue F), mapFields id fields = fields
  | [] => rfl
  | (key, value) :: fields =>
      congrArg₂ List.cons (congrArg (Prod.mk key) (map_id value)) (mapFields_id fields)

end

/-- The numbers of a writer are told apart: each starts like a number, and no two have one text. -/
structure Telling (number : F → List UInt8) (whole : Int → Prop) (float : F → Prop) : Prop where
  bare : ∀ x, Bare (number x)
  start : ∀ {x}, float x → ∃ b tail, number x = b :: tail ∧ Json.NumberStart b
  inj : ∀ {x y}, float x → float y → number x = number y → x = y
  apart : ∀ {n x}, whole n → float x → Json.printInt n ≠ number x

/-- The five kinds of value a first byte tells: words, numbers, strings, arrays, objects. -/
def kindOf (b : UInt8) : Nat :=
  if b = 110 ∨ b = 116 ∨ b = 102 then 0 else if b = 34 then 2 else if b = 91 then 3
  else if b = 123 then 4 else 1

def kind : JsonValue F → Nat
  | .null => 0
  | .bool _ => 0
  | .int _ => 1
  | .float _ => 1
  | .str _ => 2
  | .arr _ => 3
  | .obj _ => 4

theorem kindOf_numberStart {b : UInt8} (h : Json.NumberStart b) : kindOf b = 1 ∧ b ≠ 93 := by
  have hne : ∀ c : UInt8, ¬Json.NumberStart c → b ≠ c := fun c hc heq => hc (heq ▸ h)
  simp [kindOf, hne 110 (by decide), hne 116 (by decide), hne 102 (by decide), hne 34 (by decide),
    hne 91 (by decide), hne 123 (by decide), hne 93 (by decide)]

section

variable {number : F → List UInt8} {whole : Int → Prop} {float : F → Prop}

theorem print_cons (h : Telling number whole float) {value : JsonValue F}
    (hadmits : value.Admits whole float) :
    ∃ b tail, print number value = b :: tail ∧ kindOf b = value.kind ∧ b ≠ 93 := by
  match value with
  | .null => exact ⟨110, _, rfl, rfl, by decide⟩
  | .bool true => exact ⟨116, _, rfl, rfl, by decide⟩
  | .bool false => exact ⟨102, _, rfl, rfl, by decide⟩
  | .int n =>
      obtain ⟨b, tail, hcons, hstart⟩ := Json.printInt_cons n
      exact ⟨b, tail, by rw [print, hcons], kindOf_numberStart hstart⟩
  | .float x =>
      obtain ⟨b, tail, hcons, hstart⟩ := h.start hadmits
      exact ⟨b, tail, by rw [print, hcons], kindOf_numberStart hstart⟩
  | .str text => exact ⟨34, _, by rw [print, Json.printStr], rfl, by decide⟩
  | .arr [] => exact ⟨91, _, by rw [print], rfl, by decide⟩
  | .arr (item :: items) => exact ⟨91, _, by rw [print], rfl, by decide⟩
  | .obj [] => exact ⟨123, _, by rw [print], rfl, by decide⟩
  | .obj ((key, value) :: fields) => exact ⟨123, _, by rw [print], rfl, by decide⟩

theorem kind_eq (h : Telling number whole float) {a b : JsonValue F} {r r' : List UInt8}
    (ha : a.Admits whole float) (hb : b.Admits whole float)
    (heq : print number a ++ r = print number b ++ r') : b.kind = a.kind := by
  obtain ⟨c, tail, hcons, hkind, -⟩ := print_cons h ha
  obtain ⟨c', tail', hcons', hkind', -⟩ := print_cons h hb
  rw [hcons, hcons', List.cons_append, List.cons_append] at heq
  rw [← hkind, ← hkind', (List.cons.inj heq).1]

/-- The text of a plain value tells the value. -/
theorem plain_inj (h : Telling number whole float) {a b : JsonValue F} (ha : a.plain = true)
    (hb : b.plain = true) (hadmits : a.Admits whole float) (hadmits' : b.Admits whole float)
    (heq : print number a = print number b) : a = b := by
  have hkind := kind_eq h hadmits hadmits' (congrArg (· ++ []) heq)
  cases a with
  | null =>
      cases b with
      | null => rfl
      | bool b => cases b <;> exact absurd heq (by unfold print; decide)
      | _ => cases hkind
  | bool p =>
      cases b with
      | null => cases p <;> exact absurd heq (by unfold print; decide)
      | bool q =>
          cases p <;> cases q <;> first | rfl | exact absurd heq (by unfold print; decide)
      | _ => cases hkind
  | int n =>
      cases b with
      | int m =>
          simp only [print] at heq
          rw [(@Json.printInt_read _ _ [] [] (by simp [Json.Stops]) (by simp [Json.Stops])
            (congrArg (· ++ []) heq)).1]
      | float x =>
          simp only [print] at heq
          exact absurd heq (h.apart hadmits hadmits')
      | _ => cases hkind
  | float x =>
      cases b with
      | int m =>
          simp only [print] at heq
          exact absurd heq.symm (h.apart hadmits' hadmits)
      | float y =>
          simp only [print] at heq
          rw [h.inj hadmits hadmits' heq]
      | _ => cases hkind
  | str text =>
      cases b with
      | str text' =>
          simp only [print] at heq
          rw [utf8_inj (@Json.printStr_read _ _ [] [] (congrArg (· ++ []) heq)).1]
      | _ => cases hkind
  | arr => cases ha
  | obj => cases ha

theorem ended_printItems (items : List (JsonValue F)) (r : List UInt8) :
    Ended (printItems number items ++ r) := by
  cases items with
  | nil => exact ⟨93, r, by rw [printItems]; rfl, by decide⟩
  | cons item rest => exact ⟨44, _, by rw [printItems]; rfl, by decide⟩

theorem plain_of_kind {a b : JsonValue F} (ha : a.plain = true) (hkind : b.kind = a.kind) :
    b.plain = true := by
  cases a with
  | arr => cases ha
  | obj => cases ha
  | _ => cases b <;> first | rfl | cases hkind

theorem plain_print_read (h : Telling number whole float) {a b : JsonValue F} {r r' : List UInt8}
    (hplain : a.plain = true) (ha : a.Admits whole float) (hb : b.Admits whole float) (hr : Ended r)
    (hr' : Ended r') (heq : print number a ++ r = print number b ++ r') : a = b ∧ r = r' := by
  have hplain' := plain_of_kind hplain (kind_eq h ha hb heq)
  obtain ⟨htext, hrest⟩ := plain_read h.bare hplain hplain' hr hr' heq
  exact ⟨plain_inj h hplain hplain' ha hb htext, hrest⟩

mutual

/-- A text has one value, and ends where that value ends. -/
theorem print_read (h : Telling number whole float) :
    ∀ {a b : JsonValue F} {r r' : List UInt8}, a.Admits whole float → b.Admits whole float →
      Ended r → Ended r' → print number a ++ r = print number b ++ r' → a = b ∧ r = r'
  | .arr [], b, r, r', ha, hb, hr, hr', heq => by
      have hkind := kind_eq h ha hb heq
      match b with
      | .arr [] => exact ⟨rfl, List.append_cancel_left heq⟩
      | .arr (item :: items) =>
          obtain ⟨c, tail, hcons, -, hclose⟩ := print_cons h hb.1
          simp only [print, hcons, List.cons_append, List.nil_append, List.cons.injEq, true_and] at heq
          exact absurd heq.1.symm hclose
      | .null | .bool _ | .int _ | .float _ | .str _ | .obj _ => cases hkind
  | .arr (item :: items), b, r, r', ha, hb, hr, hr', heq => by
      have hkind := kind_eq h ha hb heq
      match b with
      | .arr [] =>
          obtain ⟨c, tail, hcons, -, hclose⟩ := print_cons h ha.1
          simp only [print, hcons, List.cons_append, List.nil_append, List.cons.injEq, true_and] at heq
          exact absurd heq.1 hclose
      | .arr (item' :: items') =>
          simp only [print, List.cons_append, List.append_assoc, List.cons.injEq, true_and] at heq
          obtain ⟨hitem, hrest⟩ := print_read h ha.1 hb.1 (ended_printItems items r)
            (ended_printItems items' r') heq
          obtain ⟨hitems, hend⟩ := printItems_read h ha.2 hb.2 hrest
          exact ⟨congrArg arr (congrArg₂ List.cons hitem hitems), hend⟩
      | .null | .bool _ | .int _ | .float _ | .str _ | .obj _ => cases hkind
  | .obj [], b, r, r', ha, hb, hr, hr', heq => by
      have hkind := kind_eq h ha hb heq
      match b with
      | .obj [] => exact ⟨rfl, List.append_cancel_left heq⟩
      | .obj ((key, value) :: fields) =>
          simp only [print, printKey, Json.printStr, List.cons_append, List.nil_append,
            List.cons.injEq, true_and] at heq
          exact absurd heq.1 (by decide)
      | .null | .bool _ | .int _ | .float _ | .str _ | .arr _ => cases hkind
  | .obj ((key, value) :: fields), b, r, r', ha, hb, hr, hr', heq => by
      have hkind := kind_eq h ha hb heq
      match b with
      | .obj [] =>
          simp only [print, printKey, Json.printStr, List.cons_append, List.nil_append,
            List.cons.injEq, true_and] at heq
          exact absurd heq.1 (by decide)
      | .obj ((key', value') :: fields') =>
          simp only [print, List.cons_append, List.append_assoc, List.cons.injEq, true_and] at heq
          obtain ⟨hkey, hcolon⟩ := printKey_read heq
          obtain ⟨hvalue, hrest⟩ := print_read h ha.1 hb.1 (ended_printFields number fields r)
            (ended_printFields number fields' r') (List.cons.inj hcolon).2
          obtain ⟨hfields, hend⟩ := printFields_read h ha.2 hb.2 hrest
          exact ⟨congrArg obj (congrArg₂ List.cons (Prod.ext hkey hvalue) hfields), hend⟩
      | .null | .bool _ | .int _ | .float _ | .str _ | .arr _ => cases hkind
  | .null, b, r, r', ha, hb, hr, hr', heq => plain_print_read h rfl ha hb hr hr' heq
  | .bool _, b, r, r', ha, hb, hr, hr', heq => plain_print_read h rfl ha hb hr hr' heq
  | .int _, b, r, r', ha, hb, hr, hr', heq => plain_print_read h rfl ha hb hr hr' heq
  | .float _, b, r, r', ha, hb, hr, hr', heq => plain_print_read h rfl ha hb hr hr' heq
  | .str _, b, r, r', ha, hb, hr, hr', heq => plain_print_read h rfl ha hb hr hr' heq

theorem printItems_read (h : Telling number whole float) :
    ∀ {l l' : List (JsonValue F)} {r r' : List UInt8}, AdmitsItems whole float l →
      AdmitsItems whole float l' → printItems number l ++ r = printItems number l' ++ r' →
        l = l' ∧ r = r'
  | [], [], r, r', _, _, heq => ⟨rfl, List.append_cancel_left heq⟩
  | [], item :: l, r, r', _, _, heq => by
      simp only [printItems, List.cons_append] at heq
      exact absurd (List.cons.inj heq).1 (by decide)
  | item :: l, [], r, r', _, _, heq => by
      simp only [printItems, List.cons_append] at heq
      exact absurd (List.cons.inj heq).1 (by decide)
  | item :: l, item' :: l', r, r', ha, hb, heq => by
      simp only [printItems, List.cons_append, List.append_assoc, List.cons.injEq, true_and] at heq
      obtain ⟨hitem, hrest⟩ := print_read h ha.1 hb.1 (ended_printItems l r) (ended_printItems l' r')
        heq
      obtain ⟨hitems, hend⟩ := printItems_read h ha.2 hb.2 hrest
      exact ⟨congrArg₂ List.cons hitem hitems, hend⟩

theorem printFields_read (h : Telling number whole float) :
    ∀ {l l' : List (String × JsonValue F)} {r r' : List UInt8}, AdmitsFields whole float l →
      AdmitsFields whole float l' → printFields number l ++ r = printFields number l' ++ r' →
        l = l' ∧ r = r'
  | [], [], r, r', _, _, heq => ⟨rfl, List.append_cancel_left heq⟩
  | [], (key, value) :: l, r, r', _, _, heq => by
      simp only [printFields, List.cons_append] at heq
      exact absurd (List.cons.inj heq).1 (by decide)
  | (key, value) :: l, [], r, r', _, _, heq => by
      simp only [printFields, List.cons_append] at heq
      exact absurd (List.cons.inj heq).1 (by decide)
  | (key, value) :: l, (key', value') :: l', r, r', ha, hb, heq => by
      simp only [printFields, List.cons_append, List.append_assoc, List.cons.injEq, true_and] at heq
      obtain ⟨hkey, hcolon⟩ := printKey_read heq
      obtain ⟨hvalue, hrest⟩ := print_read h ha.1 hb.1 (ended_printFields number l r)
        (ended_printFields number l' r') (List.cons.inj hcolon).2
      obtain ⟨hfields, hend⟩ := printFields_read h ha.2 hb.2 hrest
      exact ⟨congrArg₂ List.cons (Prod.ext hkey hvalue) hfields, hend⟩

end

/-- No two values have one text. -/
theorem print_inj (h : Telling number whole float) {a b : JsonValue F} (ha : a.Admits whole float)
    (hb : b.Admits whole float) (heq : print number a = print number b) : a = b :=
  (print_read h ha hb ⟨44, [], rfl, by decide⟩ ⟨44, [], rfl, by decide⟩
    (congrArg (· ++ [44]) heq)).1

end

end JsonValue

end Lib
end VerifiableExchange

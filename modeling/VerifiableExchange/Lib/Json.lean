import Mathlib.Data.Nat.Digits.Defs
import VerifiableExchange.Lib.Encoding

/-!
# Json — compact JSON text with one reading

The subset of JSON a program without floating-point data writes: null, whole numbers, strings,
arrays and objects, printed without blanks as `serde_json::to_vec` prints them. No two values have
the same text, and a text can be taken off the front of a byte string in one way only.
-/

namespace VerifiableExchange
namespace Lib

inductive Json
  | null
  | num (n : Int)
  | str (text : List UInt8)
  | arr (items : List Json)
  | obj (fields : List (List UInt8 × Json))

namespace Json

/-! ## Printing -/

/-- The decimal digits of a number, the highest first. -/
def natDigits (n : Nat) : List UInt8 :=
  if n = 0 then [48] else (Nat.digits 10 n).reverse.map (fun d => UInt8.ofNat (48 + d))

def printInt : Int → List UInt8
  | .ofNat n => natDigits n
  | .negSucc n => 45 :: natDigits (n + 1)

def hexDigit (n : Nat) : UInt8 := if n < 10 then UInt8.ofNat (48 + n) else UInt8.ofNat (87 + n)

/-- One byte of a string, escaped where JSON asks for it. -/
def escape (b : UInt8) : List UInt8 :=
  if b = 34 then [92, 34]
  else if b = 92 then [92, 92]
  else if b = 8 then [92, 98]
  else if b = 9 then [92, 116]
  else if b = 10 then [92, 110]
  else if b = 12 then [92, 102]
  else if b = 13 then [92, 114]
  else if b < 32 then [92, 117, 48, 48, hexDigit (b.toNat / 16), hexDigit (b.toNat % 16)]
  else [b]

def printStr (text : List UInt8) : List UInt8 := 34 :: (text.flatMap escape ++ [34])

mutual

/-- The compact text of a value. -/
def print : Json → List UInt8
  | .null => [110, 117, 108, 108]
  | .num n => printInt n
  | .str text => printStr text
  | .arr [] => [91, 93]
  | .arr (item :: items) => 91 :: (print item ++ printItems items)
  | .obj [] => [123, 125]
  | .obj ((key, value) :: fields) => 123 :: (printStr key ++ 58 :: (print value ++ printFields fields))

/-- The items after the first one, and the closing bracket. -/
def printItems : List Json → List UInt8
  | [] => [93]
  | item :: items => 44 :: (print item ++ printItems items)

/-- The fields after the first one, and the closing brace. -/
def printFields : List (List UInt8 × Json) → List UInt8
  | [] => [125]
  | (key, value) :: fields => 44 :: (printStr key ++ 58 :: (print value ++ printFields fields))

end

/-! ## Numbers -/

/-- What may follow a number: anything that does not go on with a digit. -/
def Stops (r : List UInt8) : Prop := ∀ b ∈ r.head?, ¬(48 ≤ b ∧ b ≤ 57)

theorem digit_of_mem_natDigits {n : Nat} {b : UInt8} (h : b ∈ natDigits n) : 48 ≤ b ∧ b ≤ 57 := by
  unfold natDigits at h
  split_ifs at h
  · cases List.mem_singleton.1 h
    decide
  · obtain ⟨d, hd, rfl⟩ := List.mem_map.1 h
    have hlt : d < 10 := Nat.digits_lt_base (by decide) (List.mem_reverse.1 hd)
    simp only [UInt8.le_iff_toNat_le, UInt8.toNat_ofNat']
    have hcode : (48 + d) % 2 ^ 8 = 48 + d := Nat.mod_eq_of_lt (by omega)
    rw [hcode]
    exact ⟨Nat.le_add_right 48 d, by
      show 48 + d ≤ 57
      omega⟩

theorem natDigits_ne_nil (n : Nat) : natDigits n ≠ [] := by
  unfold natDigits
  split_ifs with hn
  · simp
  · simpa [Nat.digits_eq_nil_iff_eq_zero] using hn

/-- The number a row of digits stands for. -/
def digitsValue (digits : List UInt8) : Nat :=
  Nat.ofDigits 10 (digits.reverse.map (fun b => b.toNat - 48))

theorem digitsValue_natDigits (n : Nat) : digitsValue (natDigits n) = n := by
  unfold natDigits digitsValue
  split_ifs with hn
  · simp [hn]
  · have hback : ∀ d ∈ Nat.digits 10 n, (UInt8.ofNat (48 + d)).toNat - 48 = d := by
      intro d hd
      have hlt : d < 10 := Nat.digits_lt_base (by decide) hd
      simp only [UInt8.toNat_ofNat']
      omega
    rw [← List.map_reverse, List.reverse_reverse, List.map_map]
    calc Nat.ofDigits 10 ((Nat.digits 10 n).map ((fun b => b.toNat - 48) ∘ fun d => UInt8.ofNat (48 + d)))
        = Nat.ofDigits 10 ((Nat.digits 10 n).map id) :=
          congrArg _ (List.map_congr_left hback)
      _ = n := by rw [List.map_id, Nat.ofDigits_digits]

/-- Two runs of bytes with `p`, each followed by something else, are told apart. -/
theorem run_unique {α : Type*} {p : α → Prop} :
    ∀ {l l' r r' : List α}, (∀ b ∈ l, p b) → (∀ b ∈ l', p b) → (∀ b ∈ r.head?, ¬p b) →
      (∀ b ∈ r'.head?, ¬p b) → l ++ r = l' ++ r' → l = l' ∧ r = r'
  | [], [], _, _, _, _, _, _, h => ⟨rfl, h⟩
  | [], b :: l', r, r', _, hl', hr, _, h => by
      refine absurd (hl' b List.mem_cons_self) (hr b ?_)
      simp only [List.nil_append] at h
      simp [h]
  | b :: l, [], r, r', hl, _, _, hr', h => by
      refine absurd (hl b List.mem_cons_self) (hr' b ?_)
      simp only [List.nil_append] at h
      simp [← h]
  | b :: l, c :: l', r, r', hl, hl', hr, hr', h => by
      obtain ⟨hhead, htail⟩ := List.cons.inj h
      obtain ⟨hlist, hrest⟩ := run_unique (fun x hx => hl x (List.mem_cons_of_mem _ hx))
        (fun x hx => hl' x (List.mem_cons_of_mem _ hx)) hr hr' htail
      exact ⟨congrArg₂ List.cons hhead hlist, hrest⟩

theorem natDigits_read {n m : Nat} {r r' : List UInt8} (hr : Stops r) (hr' : Stops r')
    (h : natDigits n ++ r = natDigits m ++ r') : n = m ∧ r = r' := by
  obtain ⟨hdigits, hrest⟩ := run_unique (fun _ => digit_of_mem_natDigits)
    (fun _ => digit_of_mem_natDigits) hr hr' h
  have hvalue := congrArg digitsValue hdigits
  rw [digitsValue_natDigits, digitsValue_natDigits] at hvalue
  exact ⟨hvalue, hrest⟩

/-- What a number starts with: a sign or a digit. -/
def NumberStart (b : UInt8) : Prop := b = 45 ∨ (48 ≤ b ∧ b ≤ 57)

instance (b : UInt8) : Decidable (NumberStart b) := inferInstanceAs (Decidable (_ ∨ _))

theorem natDigits_cons (n : Nat) : ∃ b tail, natDigits n = b :: tail ∧ 48 ≤ b ∧ b ≤ 57 := by
  obtain ⟨b, tail, h⟩ := List.exists_cons_of_ne_nil (natDigits_ne_nil n)
  exact ⟨b, tail, h, digit_of_mem_natDigits (h ▸ List.mem_cons_self)⟩

theorem printInt_cons (n : Int) : ∃ b tail, printInt n = b :: tail ∧ NumberStart b := by
  cases n with
  | ofNat n =>
      obtain ⟨b, tail, h, hb⟩ := natDigits_cons n
      exact ⟨b, tail, h, Or.inr hb⟩
  | negSucc n => exact ⟨45, _, rfl, Or.inl rfl⟩

theorem printInt_read {x y : Int} {r r' : List UInt8} (hr : Stops r) (hr' : Stops r')
    (h : printInt x ++ r = printInt y ++ r') : x = y ∧ r = r' := by
  cases x with
  | ofNat n =>
      cases y with
      | ofNat m =>
          obtain ⟨hnum, hrest⟩ := natDigits_read hr hr' h
          exact ⟨congrArg Int.ofNat hnum, hrest⟩
      | negSucc m =>
          obtain ⟨b, tail, hcons, hb⟩ := natDigits_cons n
          simp only [printInt, hcons, List.cons_append, List.cons.injEq] at h
          exact absurd (h.1 ▸ hb) (by decide)
  | negSucc n =>
      cases y with
      | ofNat m =>
          obtain ⟨b, tail, hcons, hb⟩ := natDigits_cons m
          simp only [printInt, hcons, List.cons_append, List.cons.injEq] at h
          exact absurd (h.1 ▸ hb) (by decide)
      | negSucc m =>
          obtain ⟨hnum, hrest⟩ := natDigits_read hr hr' (List.cons.inj h).2
          exact ⟨congrArg Int.negSucc (Nat.succ.inj hnum), hrest⟩

/-! ## Strings -/

def hexValue (b : UInt8) : Nat := if b ≤ 57 then b.toNat - 48 else b.toNat - 87

/-- The byte an escape stands for, after its backslash. -/
def unescapeCode : List UInt8 → Option (UInt8 × List UInt8)
  | 34 :: r => some (34, r)
  | 92 :: r => some (92, r)
  | 98 :: r => some (8, r)
  | 116 :: r => some (9, r)
  | 110 :: r => some (10, r)
  | 102 :: r => some (12, r)
  | 114 :: r => some (13, r)
  | 117 :: 48 :: 48 :: high :: low :: r =>
      some (UInt8.ofNat (16 * hexValue high + hexValue low), r)
  | _ => none

/-- Takes one possibly escaped byte off the front of a string's text. -/
def unescape : List UInt8 → Option (UInt8 × List UInt8)
  | [] => none
  | b :: r => if b = 92 then unescapeCode r else some (b, r)

theorem hexValue_control : ∀ n < 32,
    16 * hexValue (hexDigit (n / 16)) + hexValue (hexDigit (n % 16)) = n := by decide

theorem unescape_escape (b : UInt8) (r : List UInt8) : unescape (escape b ++ r) = some (b, r) := by
  unfold escape
  split_ifs with h34 h92 h8 h9 h10 h12 h13 hcontrol
  · rw [h34]
    rfl
  · rw [h92]
    rfl
  · rw [h8]
    rfl
  · rw [h9]
    rfl
  · rw [h10]
    rfl
  · rw [h12]
    rfl
  · rw [h13]
    rfl
  · have hvalue := hexValue_control b.toNat (UInt8.lt_iff_toNat_lt.1 hcontrol)
    simp [unescape, unescapeCode, hvalue]
  · simp [unescape, h92]

/-- No escaped byte starts with the quote that ends a string. -/
theorem escape_cons (b : UInt8) : ∃ c tail, escape b = c :: tail ∧ c ≠ 34 := by
  unfold escape
  split_ifs with h34
  case neg => exact ⟨b, [], rfl, h34⟩
  all_goals exact ⟨92, _, rfl, by decide⟩

theorem escaped_read : ∀ {u v r r' : List UInt8},
    u.flatMap escape ++ 34 :: r = v.flatMap escape ++ 34 :: r' → u = v ∧ r = r'
  | [], [], r, r', h => ⟨rfl, (List.cons.inj h).2⟩
  | [], c :: v, r, r', h => by
      obtain ⟨d, tail, hcons, hd⟩ := escape_cons c
      simp only [List.flatMap_nil, List.nil_append, List.flatMap_cons, hcons, List.cons_append,
        List.cons.injEq] at h
      exact absurd h.1.symm hd
  | b :: u, [], r, r', h => by
      obtain ⟨d, tail, hcons, hd⟩ := escape_cons b
      simp only [List.flatMap_nil, List.nil_append, List.flatMap_cons, hcons, List.cons_append,
        List.cons.injEq] at h
      exact absurd h.1 hd
  | b :: u, c :: v, r, r', h => by
      simp only [List.flatMap_cons, List.append_assoc] at h
      have hfirst := congrArg unescape h
      rw [unescape_escape, unescape_escape, Option.some.injEq, Prod.mk.injEq] at hfirst
      obtain ⟨htail, hrest⟩ := escaped_read hfirst.2
      exact ⟨congrArg₂ List.cons hfirst.1 htail, hrest⟩

theorem printStr_read {u v r r' : List UInt8} (h : printStr u ++ r = printStr v ++ r') :
    u = v ∧ r = r' := by
  simp only [printStr, List.cons_append, List.append_assoc, List.nil_append, List.cons.injEq,
    true_and] at h
  exact escaped_read h

/-! ## Values -/

theorem Stops.cons {b : UInt8} {r : List UInt8} (h : ¬(48 ≤ b ∧ b ≤ 57)) : Stops (b :: r) := by
  intro c hc
  cases Option.mem_some.1 hc
  exact h

theorem stops_printItems (items : List Json) (r : List UInt8) : Stops (printItems items ++ r) := by
  cases items <;> exact .cons (by decide)

theorem stops_printFields (fields : List (List UInt8 × Json)) (r : List UInt8) :
    Stops (printFields fields ++ r) := by
  cases fields <;> exact .cons (by decide)

/-- The five kinds of value. -/
def kind : Json → Nat
  | .null => 0
  | .num _ => 1
  | .str _ => 2
  | .arr _ => 3
  | .obj _ => 4

/-- The kind of value that starts with a byte. -/
def kindOf (b : UInt8) : Nat :=
  if b = 110 then 0 else if b = 34 then 2 else if b = 91 then 3 else if b = 123 then 4 else 1

theorem kindOf_numberStart {b : UInt8} (h : NumberStart b) : kindOf b = 1 ∧ b ≠ 93 := by
  have hne : ∀ c : UInt8, ¬NumberStart c → b ≠ c := fun c hc heq => hc (heq ▸ h)
  simp [kindOf, hne 110 (by decide), hne 34 (by decide), hne 91 (by decide), hne 123 (by decide),
    hne 93 (by decide)]

/-- A text starts with a byte that tells the kind of its value, and never with a closing bracket. -/
theorem print_cons (a : Json) : ∃ b tail, a.print = b :: tail ∧ kindOf b = a.kind ∧ b ≠ 93 := by
  cases a with
  | null => exact ⟨110, _, rfl, by decide⟩
  | num n =>
      obtain ⟨b, tail, h, hb⟩ := printInt_cons n
      exact ⟨b, tail, h, kindOf_numberStart hb⟩
  | str text => exact ⟨34, _, rfl, rfl, by decide⟩
  | arr items => cases items <;> exact ⟨91, _, rfl, rfl, by decide⟩
  | obj fields => rcases fields with - | ⟨⟨key, value⟩, fields⟩ <;> exact ⟨123, _, rfl, rfl, by decide⟩

theorem kind_eq {a b : Json} {r r' : List UInt8} (h : a.print ++ r = b.print ++ r') :
    b.kind = a.kind := by
  obtain ⟨c, tail, ha, hc, -⟩ := print_cons a
  obtain ⟨d, tail', hb, hd, -⟩ := print_cons b
  rw [ha, hb] at h
  rw [← hc, ← hd, (List.cons.inj h).1]

theorem eq_null {b : Json} (h : b.kind = 0) : b = .null := by
  cases b <;> first | rfl | cases h

theorem eq_num {b : Json} (h : b.kind = 1) : ∃ n, b = .num n := by
  cases b <;> first | exact ⟨_, rfl⟩ | cases h

theorem eq_str {b : Json} (h : b.kind = 2) : ∃ text, b = .str text := by
  cases b <;> first | exact ⟨_, rfl⟩ | cases h

theorem eq_arr {b : Json} (h : b.kind = 3) : ∃ items, b = .arr items := by
  cases b <;> first | exact ⟨_, rfl⟩ | cases h

theorem eq_obj {b : Json} (h : b.kind = 4) : ∃ fields, b = .obj fields := by
  cases b <;> first | exact ⟨_, rfl⟩ | cases h

/-- No array starts like the empty one. -/
theorem print_ne_close (a : Json) (tail r r' : List UInt8) :
    a.print ++ tail ++ r ≠ [93] ++ r' := by
  obtain ⟨c, rest, hcons, -, hc⟩ := print_cons a
  intro h
  rw [hcons] at h
  exact hc (List.cons.inj h).1

mutual

/-- A text has one value, and ends where that value ends. -/
theorem print_read : ∀ {a b : Json} {r r' : List UInt8}, Stops r → Stops r' →
    a.print ++ r = b.print ++ r' → a = b ∧ r = r'
  | .null, b, r, r', _, _, h => by
      -- The first byte names the kind, so both values are of one kind.
      obtain rfl := eq_null (kind_eq h)
      exact ⟨rfl, List.append_cancel_left h⟩
  | .num n, b, r, r', hr, hr', h => by
      obtain ⟨m, rfl⟩ := eq_num (kind_eq h)
      obtain ⟨hnum, hrest⟩ := printInt_read hr hr' h
      exact ⟨congrArg Json.num hnum, hrest⟩
  | .str text, b, r, r', _, _, h => by
      obtain ⟨text', rfl⟩ := eq_str (kind_eq h)
      obtain ⟨htext, hrest⟩ := printStr_read h
      exact ⟨congrArg Json.str htext, hrest⟩
  | .arr [], b, r, r', _, _, h => by
      obtain ⟨items', rfl⟩ := eq_arr (kind_eq h)
      cases items' with
      | nil => exact ⟨rfl, List.append_cancel_left h⟩
      -- An empty array closes where the other one has its first item.
      | cons item' items' => exact absurd (List.cons.inj h).2.symm (print_ne_close _ _ _ _)
  | .arr (item :: items), b, r, r', _, _, h => by
      obtain ⟨items', rfl⟩ := eq_arr (kind_eq h)
      cases items' with
      | nil => exact absurd (List.cons.inj h).2 (print_ne_close _ _ _ _)
      | cons item' items' =>
          simp only [print, List.cons_append, List.append_assoc, List.cons.injEq, true_and] at h
          obtain ⟨hitem, hrest⟩ :=
            print_read (stops_printItems items r) (stops_printItems items' r') h
          obtain ⟨hitems, hr⟩ := printItems_read hrest
          exact ⟨congrArg Json.arr (congrArg₂ List.cons hitem hitems), hr⟩
  | .obj fields, b, r, r', _, _, h => by
      obtain ⟨fields', rfl⟩ := eq_obj (kind_eq h)
      obtain ⟨hfields, hr⟩ := obj_read h
      exact ⟨congrArg Json.obj hfields, hr⟩

/-- An object ends where its text says, whatever comes after. -/
theorem obj_read : ∀ {l l' : List (List UInt8 × Json)} {r r' : List UInt8},
    (Json.obj l).print ++ r = (Json.obj l').print ++ r' → l = l' ∧ r = r'
  | [], [], r, r', h => ⟨rfl, List.append_cancel_left h⟩
  | [], (key, value) :: l', r, r', h => absurd (List.cons.inj (List.cons.inj h).2).1 (by decide)
  | (key, value) :: l, [], r, r', h => absurd (List.cons.inj (List.cons.inj h).2).1 (by decide)
  | (key, value) :: l, (key', value') :: l', r, r', h => by
      simp only [print, List.cons_append, List.append_assoc, List.cons.injEq, true_and] at h
      obtain ⟨hkey, hvalue⟩ := printStr_read h
      obtain ⟨hvalue, hrest⟩ := print_read (stops_printFields l r) (stops_printFields l' r')
        (List.cons.inj hvalue).2
      obtain ⟨hfields, hr⟩ := printFields_read hrest
      exact ⟨congrArg₂ List.cons (Prod.ext hkey hvalue) hfields, hr⟩

theorem printItems_read : ∀ {l l' : List Json} {r r' : List UInt8},
    printItems l ++ r = printItems l' ++ r' → l = l' ∧ r = r'
  | [], [], r, r', h => ⟨rfl, (List.cons.inj h).2⟩
  | [], b :: l', r, r', h => absurd (List.cons.inj h).1 (by decide)
  | a :: l, [], r, r', h => absurd (List.cons.inj h).1 (by decide)
  | a :: l, b :: l', r, r', h => by
      simp only [printItems, List.cons_append, List.append_assoc, List.cons.injEq, true_and] at h
      obtain ⟨hitem, hrest⟩ := print_read (stops_printItems l r) (stops_printItems l' r') h
      obtain ⟨hitems, hr⟩ := printItems_read hrest
      exact ⟨congrArg₂ List.cons hitem hitems, hr⟩

theorem printFields_read : ∀ {l l' : List (List UInt8 × Json)} {r r' : List UInt8},
    printFields l ++ r = printFields l' ++ r' → l = l' ∧ r = r'
  | [], [], r, r', h => ⟨rfl, (List.cons.inj h).2⟩
  | [], (key, value) :: l', r, r', h => absurd (List.cons.inj h).1 (by decide)
  | (key, value) :: l, [], r, r', h => absurd (List.cons.inj h).1 (by decide)
  | (key, value) :: l, (key', value') :: l', r, r', h => by
      simp only [printFields, List.cons_append, List.append_assoc, List.cons.injEq, true_and] at h
      obtain ⟨hkey, hvalue⟩ := printStr_read h
      obtain ⟨hvalue, hrest⟩ := print_read (stops_printFields l r) (stops_printFields l' r')
        (List.cons.inj hvalue).2
      obtain ⟨hfields, hr⟩ := printFields_read hrest
      exact ⟨congrArg₂ List.cons (Prod.ext hkey hvalue) hfields, hr⟩

end

theorem print_inj {a b : Json} (h : a.print = b.print) : a = b :=
  (@print_read a b [] [] (by simp [Stops]) (by simp [Stops]) (congrArg (· ++ []) h)).1

/-! ## Building values -/

/-- A text as a JSON string. -/
def text (s : String) : Json := .str (utf8 s)

/-- An object with the field names of a structure. -/
def record (fields : List (String × Json)) : Json := .obj (fields.map (fun f => (utf8 f.1, f.2)))

def ofOption {α : Type*} (toJson : α → Json) : Option α → Json
  | none => .null
  | some a => toJson a

/-- Two structures' values that print alike have the same fields. -/
theorem record_read {l l' : List (String × Json)} {r r' : List UInt8}
    (h : (record l).print ++ r = (record l').print ++ r') : l = l' ∧ r = r' := by
  obtain ⟨hfields, hr⟩ := obj_read h
  have hinj : Function.Injective (fun f : String × Json => (utf8 f.1, f.2)) := by
    intro f g hfg
    obtain ⟨hname, hvalue⟩ := Prod.mk.inj hfg
    exact Prod.ext (utf8_inj hname) hvalue
  exact ⟨List.map_injective_iff.2 hinj hfields, hr⟩

theorem record_inj {l l' : List (String × Json)} : record l = record l' ↔ l = l' := by
  exact ⟨fun h => (@record_read l l' [] [] (by rw [h])).1, congrArg record⟩

theorem ofOption_inj {α : Type*} {toJson : α → Json}
    (hinj : Function.Injective toJson) (hnull : ∀ a, toJson a ≠ .null) :
    Function.Injective (ofOption toJson) := by
  intro a b h
  cases a with
  | none => cases b with
    | none => rfl
    | some b => exact absurd h.symm (hnull b)
  | some a => cases b with
    | none => exact absurd h (hnull a)
    | some b => exact congrArg some (hinj h)

@[simp] theorem text_inj {a b : String} : text a = text b ↔ a = b := by
  simp only [text, str.injEq]
  exact ⟨utf8_inj, congrArg utf8⟩

end Json

end Lib
end VerifiableExchange

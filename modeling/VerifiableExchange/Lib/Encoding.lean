import Mathlib.Data.List.Basic
import Mathlib.Tactic.SplitIfs
import VerifiableExchange.Lib.MachineInt

/-!
# Encoding — byte strings with one reading

An encoding is `Readable` when a reader who knows what comes next can take it off the front of any
byte string in one way only. Fixed widths, length prefixes and counted lists are readable, and
readable parts written one after another are read back one after another.
-/

namespace VerifiableExchange
namespace Lib

/-- Encodings of the values with `P` that can be taken off the front in one way only. -/
def Readable {α β : Type*} (P : α → Prop) (enc : α → List β) : Prop :=
  ∀ ⦃a b : α⦄, P a → P b → ∀ ⦃r r' : List β⦄, enc a ++ r = enc b ++ r' → a = b ∧ r = r'

namespace Readable

variable {α β γ : Type*}

/-- Encodings of one width are readable when no two agree. -/
theorem of_length {P : α → Prop} {enc : α → List β} (n : Nat) (hlen : ∀ a, (enc a).length = n)
    (hinj : ∀ a b, P a → P b → enc a = enc b → a = b) : Readable P enc := by
  intro a b ha hb r r' h
  obtain ⟨henc, hrest⟩ := List.append_inj h ((hlen a).trans (hlen b).symm)
  exact ⟨hinj a b ha hb henc, hrest⟩

theorem append {P : α → Prop} {Q : γ → Prop} {enc : α → List β} {enc' : γ → List β}
    (h : Readable P enc) (h' : Readable Q enc') :
    Readable (fun p : α × γ => P p.1 ∧ Q p.2) (fun p => enc p.1 ++ enc' p.2) := by
  intro p q hp hq r r' heq
  simp only [List.append_assoc] at heq
  obtain ⟨hfst, heq⟩ := h hp.1 hq.1 heq
  obtain ⟨hsnd, hr⟩ := h' hp.2 hq.2 heq
  exact ⟨Prod.ext hfst hsnd, hr⟩

/-- As many values as the reader expects, one after another. -/
theorem flatMap_eq {P : α → Prop} {enc : α → List β} (h : Readable P enc) :
    ∀ {l l' : List α}, (∀ a ∈ l, P a) → (∀ a ∈ l', P a) → l.length = l'.length →
      ∀ {r r' : List β}, l.flatMap enc ++ r = l'.flatMap enc ++ r' → l = l' ∧ r = r'
  | [], [], _, _, _, _, _, heq => ⟨rfl, heq⟩
  | a :: l, b :: l', hl, hl', hlen, r, r', heq => by
      simp only [List.flatMap_cons, List.append_assoc] at heq
      obtain ⟨ha, htail⟩ := List.forall_mem_cons.1 hl
      obtain ⟨hb, htail'⟩ := List.forall_mem_cons.1 hl'
      obtain ⟨hhead, hbytes⟩ := h ha hb heq
      simp only [List.length_cons, Nat.add_right_cancel_iff] at hlen
      obtain ⟨hlist, hr⟩ := flatMap_eq h htail htail' hlen hbytes
      exact ⟨congrArg₂ List.cons hhead hlist, hr⟩

end Readable

/-! ## Little-endian words -/

/-- The low `w` bytes of a number, the lowest first. -/
def littleEndian : Nat → Nat → List UInt8
  | 0, _ => []
  | w + 1, n => UInt8.ofNat (n % 256) :: littleEndian w (n / 256)

@[simp] theorem length_littleEndian : ∀ (w n : Nat), (littleEndian w n).length = w
  | 0, _ => rfl
  | w + 1, n => congrArg (· + 1) (length_littleEndian w (n / 256))

theorem littleEndian_inj : ∀ {w n m : Nat}, n < 256 ^ w → m < 256 ^ w →
    littleEndian w n = littleEndian w m → n = m
  | 0, n, m, hn, hm, _ => by omega
  | w + 1, n, m, hn, hm, h => by
      obtain ⟨hlow, hhigh⟩ := List.cons.inj h
      have hlow : n % 256 = m % 256 := by
        have hval := congrArg UInt8.toNat hlow
        simpa [Nat.mod_mod] using hval
      have hhigh : n / 256 = m / 256 :=
        littleEndian_inj (Nat.div_lt_of_lt_mul (by rwa [pow_succ, mul_comm] at hn))
          (Nat.div_lt_of_lt_mul (by rwa [pow_succ, mul_comm] at hm)) hhigh
      calc n = 256 * (n / 256) + n % 256 := (Nat.div_add_mod n 256).symm
        _ = 256 * (m / 256) + m % 256 := by rw [hhigh, hlow]
        _ = m := Nat.div_add_mod m 256

/-- `u64::to_le_bytes`. -/
def leU64 (n : Nat) : List UInt8 := littleEndian 8 n

/-- `u32::to_le_bytes`. -/
def leU32 (n : Nat) : List UInt8 := littleEndian 4 n

/-- `i64::to_le_bytes`, the two's complement of a negative value. -/
def leI64 (x : Int) : List UInt8 := littleEndian 8 (x % 18446744073709551616).toNat

theorem readable_leU64 : Readable (fun n => n ≤ u64Max) leU64 :=
  .of_length 8 (length_littleEndian 8) (fun _ _ ha hb h =>
    littleEndian_inj (Nat.lt_succ_of_le ha) (Nat.lt_succ_of_le hb) h)

theorem readable_leU32 : Readable (fun n => n < 4294967296) leU32 :=
  .of_length 4 (length_littleEndian 4) (fun _ _ ha hb h => littleEndian_inj ha hb h)

theorem readable_leI64 : Readable InI64 leI64 := by
  refine .of_length 8 (fun _ => length_littleEndian 8 _) ?_
  intro x y hx hy h
  have hsame := littleEndian_inj (by omega) (by omega) h
  unfold InI64 i64Min i64Max at hx hy
  omega

/-! ## Fields and counted lists -/

/-- A byte string with its length in front. -/
def field (bytes : List UInt8) : List UInt8 := leU64 bytes.length ++ bytes

theorem readable_field : Readable (fun bytes : List UInt8 => bytes.length ≤ u64Max) field := by
  intro a b ha hb r r' h
  simp only [field, List.append_assoc] at h
  obtain ⟨hlen, h⟩ := readable_leU64 ha hb h
  exact List.append_inj h hlen

/-- A field that ends the byte string needs no bound on its length. -/
theorem field_inj {a b : List UInt8} (h : field a = field b) : a = b :=
  (List.append_inj h (by simp [leU64])).2

/-- A list with its count in front. -/
def counted {α : Type*} (enc : α → List UInt8) (l : List α) : List UInt8 :=
  leU64 l.length ++ l.flatMap enc

theorem Readable.counted {α : Type*} {P : α → Prop} {enc : α → List UInt8} (h : Readable P enc) :
    Readable (fun l : List α => l.length ≤ u64Max ∧ ∀ a ∈ l, P a) (counted enc) := by
  rintro l l' ⟨hlen, hl⟩ ⟨hlen', hl'⟩ r r' heq
  simp only [Lib.counted, List.append_assoc] at heq
  obtain ⟨hsame, heq⟩ := readable_leU64 hlen hlen' heq
  exact h.flatMap_eq hl hl' hsame heq

/-- The UTF-8 bytes of a text. -/
def utf8 (text : String) : List UInt8 := text.toByteArray.data.toList

/-- The length of a text is the sum of its characters' sizes. -/
theorem length_utf8 (text : String) : (utf8 text).length = (text.toList.map Char.utf8Size).sum := by
  have hbytes : utf8 text = text.toList.flatMap String.utf8EncodeChar := by
    unfold utf8
    rw [← String.utf8Encode_toList, List.utf8Encode, List.data_toByteArray]
  rw [hbytes, List.length_flatMap]
  simp

theorem utf8_inj {a b : String} (h : utf8 a = utf8 b) : a = b :=
  String.toByteArray_inj.1 (ByteArray.ext (Array.toList_inj.1 h))

end Lib
end VerifiableExchange

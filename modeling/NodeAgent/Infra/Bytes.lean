import Mathlib.Algebra.Order.Ring.Int
import Mathlib.Data.List.Basic

/-!
# Byte strings

A Go string is a sequence of bytes. The operations here are the ones of the packages `strings`
and `fmt` that the agent builds file names with.
-/

namespace Infra

abbrev Bytes := List UInt8

instance Bytes.lawfulBEq : LawfulBEq Bytes := inferInstanceAs (LawfulBEq (List UInt8))

def ascii (s : String) : Bytes := s.toList.map (fun c => UInt8.ofNat c.toNat)

/-- The bytes of a literal, without the encoding of its characters. -/
theorem ascii_ofList (l : List Char) :
    ascii (String.ofList l) = l.map (fun c => UInt8.ofNat c.toNat) := by
  rw [ascii, String.toList_ofList]

/-- `strings.HasPrefix`. -/
def hasPrefix (s p : Bytes) : Bool := p.isPrefixOf s

/-- `strings.HasSuffix`. -/
def hasSuffix (s x : Bytes) : Bool := x.isSuffixOf s

/-- `strings.TrimSuffix`. -/
def trimSuffix (s x : Bytes) : Bytes :=
  if hasSuffix s x then s.take (s.length - x.length) else s

/-- The decimal digits of a number (`strconv.Itoa` on a nonnegative one). -/
def decimal (n : Nat) : Bytes := (Nat.toDigits 10 n).map (fun c => UInt8.ofNat c.toNat)

theorem toNat_of_mem_toDigits {n : Nat} {c : Char} (h : c ∈ Nat.toDigits 10 n) :
    48 ≤ c.toNat ∧ c.toNat ≤ 57 := by
  have hdigit := Nat.isDigit_of_mem_toDigits (by decide) (by decide) h
  simp only [Char.isDigit, Bool.and_eq_true, decide_eq_true_eq, ge_iff_le,
    UInt32.le_iff_toNat_le] at hdigit
  exact hdigit

theorem digit_of_mem_decimal {n : Nat} {b : UInt8} (h : b ∈ decimal n) :
    48 ≤ b.toNat ∧ b.toNat ≤ 57 := by
  obtain ⟨c, hc, rfl⟩ := List.mem_map.mp h
  have hrange := toNat_of_mem_toDigits hc
  rw [UInt8.toNat_ofNat']
  omega

theorem decimal_injective : Function.Injective decimal := by
  have hback : ∀ n, (decimal n).map (fun b => Char.ofNat b.toNat) = Nat.toDigits 10 n := by
    intro n
    rw [decimal, List.map_map]
    refine (List.map_congr_left fun c hc => ?_).trans (List.map_id _)
    have hrange := toNat_of_mem_toDigits hc
    rw [Function.comp_apply, UInt8.toNat_ofNat', Nat.mod_eq_of_lt (by omega), Char.ofNat_toNat]
    rfl
  intro m n h
  have hdigits : Nat.toDigits 10 m = Nat.toDigits 10 n := by rw [← hback, ← hback, h]
  rw [← Nat.ofDigitChars_toDigits (b := 10) (n := m) (by decide) (by decide), hdigits,
    Nat.ofDigitChars_toDigits (by decide) (by decide)]

/-- `fmt.Sprintf("%d", n)`. -/
def itoa (n : Int) : Bytes := if n < 0 then 45 :: decimal n.natAbs else decimal n.natAbs

theorem of_mem_itoa {n : Int} {b : UInt8} (h : b ∈ itoa n) : b.toNat ≤ 57 := by
  unfold itoa at h
  split at h
  · rcases List.mem_cons.mp h with rfl | h
    · decide
    · exact (digit_of_mem_decimal h).2
  · exact (digit_of_mem_decimal h).2

/-- `fmt.Sprintf("%0<width>d", n)`. The sign counts for the width. -/
def zeroPadded (width : Nat) (n : Int) : Bytes :=
  if n < 0 then 45 :: (decimal n.natAbs).leftpad (width - 1) 48
  else (decimal n.natAbs).leftpad width 48

/-- The number of some bytes, the highest one first. -/
def bigEndian (bytes : Bytes) : Nat := bytes.foldl (fun n b => n * 256 + b.toNat) 0

/-- The lowest `width` bytes of a number, the highest one first. -/
def toBigEndian : Nat → Nat → Bytes
  | 0, _ => []
  | width + 1, n => toBigEndian width (n / 256) ++ [UInt8.ofNat n]

@[simp] theorem length_toBigEndian : ∀ width n : Nat, (toBigEndian width n).length = width
  | 0, _ => rfl
  | width + 1, n => by rw [toBigEndian, List.length_append, length_toBigEndian width]; rfl

theorem bigEndian_toBigEndian : ∀ {width n : Nat}, n < 256 ^ width →
    bigEndian (toBigEndian width n) = n
  | 0, n, h => by
    have hn : n = 0 := by simpa using h
    rw [hn]
    rfl
  | width + 1, n, h => by
    have hdiv : n / 256 < 256 ^ width := by
      rw [Nat.pow_succ] at h
      exact Nat.div_lt_of_lt_mul (by rwa [Nat.mul_comm] at h)
    have ih : bigEndian (toBigEndian width (n / 256)) = n / 256 := bigEndian_toBigEndian hdiv
    rw [bigEndian] at ih ⊢
    rw [toBigEndian, List.foldl_append, ih]
    simp only [List.foldl_cons, List.foldl_nil, UInt8.toNat_ofNat']
    exact Nat.div_add_mod' n 256

@[simp] theorem hasPrefix_append (p s : Bytes) : hasPrefix (p ++ s) p = true := by
  rw [hasPrefix, List.isPrefixOf_iff_prefix]
  exact List.prefix_append p s

@[simp] theorem hasSuffix_append (s x : Bytes) : hasSuffix (s ++ x) x = true := by
  rw [hasSuffix, List.isSuffixOf_iff_suffix]
  exact List.suffix_append s x

@[simp] theorem trimSuffix_append (s x : Bytes) : trimSuffix (s ++ x) x = s := by
  rw [trimSuffix, if_pos (hasSuffix_append s x), List.length_append, Nat.add_sub_cancel,
    List.take_left]

theorem hasPrefix_head {s p : Bytes} {a : UInt8} (h : hasPrefix s (a :: p) = true) :
    s.head? = some a := by
  rw [hasPrefix, List.isPrefixOf_iff_prefix] at h
  obtain ⟨t, rfl⟩ := h
  rfl

end Infra

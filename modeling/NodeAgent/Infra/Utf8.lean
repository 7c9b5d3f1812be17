import NodeAgent.Infra.Bytes

/-!
# Runes

How Go reads a string rune by rune: a byte that does not start a well formed sequence is read as
U+FFFD and skipped alone.

* `fields_eq_nil_iff` — a string has no fields if and only if it is white space only
-/

namespace Infra

abbrev Rune := Nat

/-- U+FFFD, what an ill formed sequence is read as. -/
def runeError : Rune := 0xFFFD

def isTwo (a b : UInt8) : Bool := 0xC2 ≤ a && a ≤ 0xDF && 0x80 ≤ b && b ≤ 0xBF

/-- The three bytes encode a rune: no overlong form and no surrogate. -/
def isThree (a b c : UInt8) : Bool :=
  0xE0 ≤ a && a ≤ 0xEF && (if a = 0xE0 then 0xA0 else 0x80) ≤ b &&
    b ≤ (if a = 0xED then 0x9F else 0xBF) && 0x80 ≤ c && c ≤ 0xBF

/-- The four bytes encode a rune: no overlong form and nothing above U+10FFFF. -/
def isFour (a b c d : UInt8) : Bool :=
  0xF0 ≤ a && a ≤ 0xF4 && (if a = 0xF0 then 0x90 else 0x80) ≤ b &&
    b ≤ (if a = 0xF4 then 0x8F else 0xBF) && 0x80 ≤ c && c ≤ 0xBF && 0x80 ≤ d && d ≤ 0xBF

def low6 (b : UInt8) : Nat := b.toNat % 64

/-- The first rune of a string that starts with the byte `a`, with the bytes it is read from. -/
def first (a : UInt8) (s : Bytes) : Rune × Bytes :=
  if a < 0x80 then (a.toNat, [a])
  else
    match s with
    | [] => (runeError, [a])
    | b :: s =>
      if isTwo a b then (a.toNat % 32 * 64 + low6 b, [a, b])
      else
        match s with
        | [] => (runeError, [a])
        | c :: s =>
          if isThree a b c then ((a.toNat % 16 * 64 + low6 b) * 64 + low6 c, [a, b, c])
          else
            match s with
            | [] => (runeError, [a])
            | d :: _ =>
              if isFour a b c d then
                (((a.toNat % 8 * 64 + low6 b) * 64 + low6 c) * 64 + low6 d, [a, b, c, d])
              else (runeError, [a])

/-- Each round takes at least one byte away. -/
def segmentsLoop : Nat → Bytes → List (Rune × Bytes)
  | fuel + 1, a :: s => first a s :: segmentsLoop fuel ((a :: s).drop (first a s).2.length)
  | _, _ => []

/-- The runes of a string, each with the bytes it is read from. -/
def segments (s : Bytes) : List (Rune × Bytes) := segmentsLoop s.length s

def runes (s : Bytes) : List Rune := (segments s).map Prod.fst

/-- `unicode.IsSpace`. -/
def isSpace (r : Rune) : Bool :=
  (9 ≤ r && r ≤ 13) || r = 0x20 || r = 0x85 || r = 0xA0 || r = 0x1680 ||
    (0x2000 ≤ r && r ≤ 0x200A) || r = 0x2028 || r = 0x2029 || r = 0x202F || r = 0x205F ||
    r = 0x3000

def trimSpace (rs : List Rune) : List Rune :=
  ((rs.dropWhile isSpace).reverse.dropWhile isSpace).reverse

def trimSpaceBytes (s : Bytes) : Bytes :=
  (((segments s).dropWhile (fun segment => isSpace segment.1)).reverse.dropWhile
    (fun segment => isSpace segment.1)).reverse.flatMap Prod.snd

/-- The loop of `strings.ToValidUTF8`. `invalid` is set after an ill formed byte. -/
def toValidLoop (replacement : Bytes) (invalid : Bool) : List (Rune × Bytes) → Bytes
  | [] => []
  | (r, bytes) :: rest =>
    if r = runeError ∧ bytes.length = 1 then
      (if invalid then [] else replacement) ++ toValidLoop replacement true rest
    else bytes ++ toValidLoop replacement false rest

/-- `strings.ToValidUTF8` -/
def toValidUTF8 (s replacement : Bytes) : Bytes := toValidLoop replacement false (segments s)

/-! ## Fields -/

/-- `bytes.Fields`: the parts of a string between white space. -/
def fields (s : Bytes) : List Bytes :=
  (((segments s).splitOnP (fun segment => isSpace segment.1)).filter (· ≠ [])).map
    (fun part => part.flatMap Prod.snd)

theorem splitOnP_all_nil {α : Type} (p : α → Bool) :
    ∀ l : List α, (∀ part ∈ l.splitOnP p, part = []) ↔ ∀ a ∈ l, p a = true
  | [] => by simp
  | a :: l => by
    rw [List.splitOnP_cons_eq_if_modifyHead, List.forall_mem_cons, ← splitOnP_all_nil p l]
    cases hp : p a with
    | true => simp
    | false =>
      obtain ⟨part, parts, h⟩ := List.exists_cons_of_ne_nil (List.splitOnP_ne_nil p l)
      simp [h]

/-- **A string has no fields if and only if it is white space only.** -/
theorem fields_eq_nil_iff (s : Bytes) : fields s = [] ↔ ∀ r ∈ runes s, isSpace r = true := by
  rw [fields, List.map_eq_nil_iff, List.filter_eq_nil_iff, runes, List.forall_mem_map,
    ← splitOnP_all_nil]
  simp

/-- The ASCII byte that `unicode.ToLower` gives for a rune. U+0130 and U+212A have one besides
ASCII. -/
def lowerAscii (r : Rune) : Option UInt8 :=
  if 65 ≤ r ∧ r ≤ 90 then some (UInt8.ofNat (r + 32))
  else if r < 0x80 then some (UInt8.ofNat r)
  else if r = 0x130 then some 105
  else if r = 0x212A then some 107
  else none

example : runes (ascii "a" ++ [0xC4, 0xB0, 0xFF, 0xE2, 0x84, 0xAA]) =
    [97, 0x130, 0xFFFD, 0x212A] := by decide

end Infra

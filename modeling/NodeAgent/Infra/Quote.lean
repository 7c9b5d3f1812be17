import Mathlib.Data.List.Infix
import NodeAgent.Infra.Segments

/-!
# Quoted strings

`strconv.Quote`, which `fmt` uses for `%q`, and what can be found in a quoted string. A character
that is not printed as it is becomes a backslash with letters or digits behind it, so a word can
begin with such a letter: a line feed before `ame` is quoted as `\name`.

* `contains_append_quote` — what a message with a quoted string contains
-/

namespace Infra

/-! ## Substrings -/

/-- `strings.Contains`. -/
def contains (s word : Bytes) : Bool := s.tails.any (hasPrefix · word)

theorem contains_iff {s word : Bytes} : contains s word = true ↔ word <:+: s := by
  rw [contains, List.any_eq_true, List.infix_iff_prefix_suffix]
  simp only [List.mem_tails, hasPrefix, List.isPrefixOf_iff_prefix, and_comm]

section

variable {α : Type} {x : α}

theorem prefix_append_cons (b : List α) : ∀ {word a : List α}, x ∉ word → word <+: a ++ x :: b →
    word <+: a
  | [], _, _, _ => List.nil_prefix
  | w :: word, [], h, hp => by
    rw [List.nil_append, List.cons_prefix_cons] at hp
    exact absurd (hp.1 ▸ List.mem_cons_self) h
  | w :: word, c :: a, h, hp => by
    rw [List.cons_append, List.cons_prefix_cons] at hp
    rw [List.mem_cons, not_or] at h
    exact List.cons_prefix_cons.mpr ⟨hp.1, prefix_append_cons b h.2 hp.2⟩

theorem infix_append_cons {word : List α} (h : x ∉ word) (b : List α) : ∀ {a : List α},
    word <:+: a ++ x :: b ↔ word <:+: a ∨ word <:+: b
  | [] => by
    rw [List.nil_append, List.infix_cons_iff]
    refine or_congr_left ⟨fun hp => ?_, fun hi => ?_⟩
    · exact (prefix_append_cons (a := []) b h hp).isInfix
    · rw [List.infix_nil.mp hi]
      exact List.nil_prefix
  | c :: a => by
    rw [List.cons_append, List.infix_cons_iff, infix_append_cons h b, List.infix_cons_iff,
      or_assoc]
    refine or_congr_left ⟨fun hp => prefix_append_cons (a := c :: a) b h hp, fun hp => ?_⟩
    exact hp.trans (List.prefix_append (c :: a) (x :: b))

theorem infix_append_of_notMem (rest b : List α) : ∀ {a : List α}, x ∉ a →
    (x :: rest <:+: a ++ b ↔ x :: rest <:+: b)
  | [], _ => Iff.rfl
  | c :: a, h => by
    rw [List.mem_cons, not_or] at h
    rw [List.cons_append, List.infix_cons_iff, List.cons_prefix_cons,
      infix_append_of_notMem rest b h.2]
    simp [h.1]

end

/-! ## Quoting -/

/-- A digit of `lowerhex`. -/
def hexDigit (n : Nat) : UInt8 := UInt8.ofNat (if n < 10 then 48 + n else 87 + n)

/-- The last `width` hexadecimal digits of a number. -/
def hexDigits : Nat → Nat → Bytes
  | 0, _ => []
  | width + 1, n => hexDigits width (n / 16) ++ [hexDigit (n % 16)]

/-- The letters for `\a`, `\b`, `\f`, `\n`, `\r`, `\t` and `\v`. -/
def escapes : List (Nat × UInt8) :=
  [(7, 97), (8, 98), (12, 102), (10, 110), (13, 114), (9, 116), (11, 118)]

/-- `strconv.IsPrint`. It is a parameter outside of ASCII. -/
def printable (isPrint : Rune → Bool) (r : Rune) : Bool :=
  if r < 0x80 then 32 ≤ r && r < 127 else isPrint r

/-- The loop of `strconv.Quote`, for one segment. -/
def quoteRune (isPrint : Rune → Bool) (segment : Rune × Bytes) : Bytes :=
  let (r, bytes) := segment
  if r = runeError ∧ bytes.length = 1 then
    92 :: 120 :: hexDigits 2 (bigEndian bytes)
  else if r = 34 ∨ r = 92 then 92 :: bytes
  else if printable isPrint r then bytes
  else
    match escapes.lookup r with
    | some letter => [92, letter]
    | none =>
      if r < 32 ∨ r = 127 then 92 :: 120 :: hexDigits 2 r
      -- every rune of a segment is valid
      else if r < 0x10000 then 92 :: 117 :: hexDigits 4 r
      else 92 :: 85 :: hexDigits 8 r

/-- `strconv.Quote`. -/
def quote (isPrint : Rune → Bool) (s : Bytes) : Bytes :=
  34 :: ((segments s).flatMap (quoteRune isPrint) ++ [34])

/-! ## What becomes of a segment -/

def isHex (b : UInt8) : Bool := (48 ≤ b && b ≤ 57) || (97 ≤ b && b ≤ 102)

def isPlain (b : UInt8) : Bool := 32 ≤ b && b < 127 && b ≠ 34 && b ≠ 92

theorem isHex_hexDigits (width n : Nat) : ∀ d ∈ hexDigits width n, isHex d = true := by
  have hdigit : ∀ k ∈ List.range 16, isHex (hexDigit k) = true := by decide
  induction width generalizing n with
  | zero => exact fun d hd => by cases hd
  | succ width ih =>
    intro d hd
    rcases List.mem_append.mp hd with hd | hd
    · exact ih _ d hd
    · rw [List.mem_singleton.mp hd]
      exact hdigit _ (List.mem_range.mpr (Nat.mod_lt n (by decide)))

inductive Quoted (bytes : Bytes) : Bytes → Prop
  | verbatim : (∀ b ∈ bytes, escapes.lookup b.toNat = none) → Quoted bytes bytes
  | letter {c l : UInt8} : bytes = [c] → isPlain c = false → escapes.lookup c.toNat = some l →
      Quoted bytes [92, l]
  | same {c : UInt8} : bytes = [c] → c = 34 ∨ c = 92 → Quoted bytes [92, c]
  | hex {c : UInt8} {digits : Bytes} : bytes ≠ [] →
      (∀ b ∈ bytes, isPlain b = false ∧ escapes.lookup b.toNat = none) →
      c = 120 ∨ c = 117 ∨ c = 85 → digits ≠ [] → (∀ d ∈ digits, isHex d = true) →
      Quoted bytes (92 :: c :: digits)

theorem quoted_hex {bytes : Bytes} {c : UInt8} (hne : bytes ≠ [])
    (hbytes : ∀ b ∈ bytes, isPlain b = false ∧ escapes.lookup b.toNat = none)
    (hc : c = 120 ∨ c = 117 ∨ c = 85) (width n : Nat) :
    Quoted bytes (92 :: c :: hexDigits (width + 1) n) :=
  .hex hne hbytes hc (by simp [hexDigits]) (isHex_hexDigits (width + 1) n)

theorem lookup_escapes_of_ge {n : Nat} (h : 14 ≤ n) : escapes.lookup n = none := by
  rw [List.lookup_eq_none_iff]
  have hsmall : ∀ e ∈ escapes, e.1 < 14 := by decide
  intro e he
  have hlt := hsmall e he
  exact bne_iff_ne.mpr (by omega)

theorem isPlain_iff {b : UInt8} : isPlain b = true ↔
    (32 ≤ b.toNat ∧ b.toNat < 127) ∧ b.toNat ≠ 34 ∧ b.toNat ≠ 92 := by
  simp only [isPlain, Bool.and_eq_true, decide_eq_true_eq, UInt8.le_iff_toNat_le,
    UInt8.lt_iff_toNat_lt, ne_eq, ← UInt8.toNat_inj, and_assoc]
  rfl

theorem not_plain_of_large {b : UInt8} (h : 0x80 ≤ b) :
    isPlain b = false ∧ escapes.lookup b.toNat = none := by
  have hlarge : 0x80 ≤ b.toNat := UInt8.le_iff_toNat_le.mp h
  refine ⟨Bool.eq_false_iff.mpr fun hplain => ?_, lookup_escapes_of_ge (by omega)⟩
  have hsmall := (isPlain_iff.mp hplain).1.2
  omega

theorem quoted_ascii (isPrint : Rune → Bool) {a : UInt8} (h : a < 0x80) :
    Quoted [a] (quoteRune isPrint (a.toNat, [a])) := by
  have hsmall : a.toNat < 0x80 := UInt8.lt_iff_toNat_lt.mp h
  have hrune : ¬ (a.toNat = runeError ∧ [a].length = 1) := fun heq => by
    have herror : a.toNat = 0xFFFD := heq.1
    omega
  unfold quoteRune
  simp only
  rw [if_neg hrune]
  split
  · next hsame =>
    have hquote : a = 34 ∨ a = 92 := hsame.imp UInt8.toNat_inj.mp UInt8.toNat_inj.mp
    exact .same rfl hquote
  next hsame =>
  have hprintable : printable isPrint a.toNat = true ↔ 32 ≤ a.toNat ∧ a.toNat < 127 := by
    simp [printable, hsmall]
  simp only [hprintable]
  split
  · next hprint =>
    refine .verbatim fun b hb => ?_
    rw [List.mem_singleton.mp hb]
    exact lookup_escapes_of_ge (by omega)
  next hprint =>
  have hplain : isPlain a = false := Bool.eq_false_iff.mpr fun hplain =>
    hprint (isPlain_iff.mp hplain).1
  split
  · next letter hletter => exact .letter rfl hplain hletter
  next hnone =>
  have hbytes : ∀ b ∈ [a], isPlain b = false ∧ escapes.lookup b.toNat = none := fun b hb => by
    rw [List.mem_singleton.mp hb]
    exact ⟨hplain, hnone⟩
  have hcontrol : a.toNat < 32 ∨ a.toNat = 127 := by omega
  rw [if_pos hcontrol]
  exact quoted_hex (by simp) hbytes (.inl rfl) 1 _

/-- **Every segment is quoted in one of these ways.** -/
theorem quoted_of_mem_segments (isPrint : Rune → Bool) {s : Bytes} {e : Rune × Bytes}
    (he : e ∈ segments s) : Quoted e.2 (quoteRune isPrint e) := by
  rcases ascii_or_of_mem_segments he with ⟨a, ha, rfl⟩ | ⟨hrune, hne, hlarge⟩
  · exact quoted_ascii isPrint ha
  obtain ⟨r, bytes⟩ := e
  have hge : ∀ {n : Nat}, n ≤ 0x80 → n ≤ r := fun hn => Nat.le_trans hn hrune
  have hne' : ∀ {n : Nat}, n < 0x80 → r ≠ n := fun hn => Nat.ne_of_gt (Nat.lt_of_lt_of_le hn hrune)
  have hbytes : ∀ b ∈ bytes, isPlain b = false ∧ escapes.lookup b.toNat = none :=
    fun b hb => not_plain_of_large (hlarge b hb)
  unfold quoteRune
  simp only
  split
  · exact quoted_hex hne hbytes (.inl rfl) 1 _
  rw [if_neg (not_or.mpr ⟨hne' (by decide), hne' (by decide)⟩)]
  split
  · exact .verbatim fun b hb => (hbytes b hb).2
  rw [lookup_escapes_of_ge (hge (by decide))]
  simp only
  rw [if_neg (not_or.mpr ⟨Nat.not_lt.mpr (hge (by decide)), hne' (by decide)⟩)]
  split
  · exact quoted_hex hne hbytes (.inr (.inl rfl)) 3 _
  · exact quoted_hex hne hbytes (.inr (.inr rfl)) 7 _

/-! ## Words in a quoted string -/

/-- A word of plain characters that does not start with a part of an escape sequence. -/
structure Keyword (word : Bytes) : Prop where
  plain : ∀ b ∈ word, isPlain b = true
  start : ∃ l m rest, word = l :: m :: rest ∧ isHex l = false ∧
    (l = 120 ∨ l = 117 ∨ l = 85 → isHex m = false)

/-- The word is found when its first letter is an escaped character. -/
def Escaped (s word : Bytes) : Prop :=
  ∃ c l rest, word = l :: rest ∧ escapes.lookup (UInt8.toNat c) = some l ∧ c :: rest <:+: s

/-- The string has the word, or the character that is escaped with its first letter and the
others. -/
def Spelled (s word : Bytes) : Prop := word <:+: s ∨ Escaped s word

namespace Keyword

variable {word : Bytes}

theorem notMem (h : Keyword word) {b : UInt8} (hb : isPlain b = false) : b ∉ word := fun hmem => by
  rw [h.plain b hmem] at hb
  cases hb

theorem infix_hex (h : Keyword word) {c : UInt8} {digits : Bytes}
    (hc : c = 120 ∨ c = 117 ∨ c = 85) (hne : digits ≠ []) (hdigits : ∀ d ∈ digits, isHex d = true)
    (x : Bytes) : word <:+: c :: digits ++ x ↔ word <:+: x := by
  obtain ⟨l, m, rest, rfl, hl, hm⟩ := h.start
  have hnotMem : l ∉ digits := fun hmem => by
    rw [hdigits l hmem] at hl
    cases hl
  rw [List.cons_append, List.infix_cons_iff, infix_append_of_notMem _ _ hnotMem]
  refine or_iff_right fun hp => ?_
  -- the second character of the word would be a digit
  obtain ⟨d, more, rfl⟩ := List.exists_cons_of_ne_nil hne
  rw [List.cons_prefix_cons, List.cons_append, List.cons_prefix_cons] at hp
  obtain ⟨rfl, rfl, -⟩ := hp
  have hhex := hdigits m List.mem_cons_self
  rw [hm hc] at hhex
  cases hhex

theorem infix_append_bytes (h : Keyword word) {bytes : Bytes} (hne : bytes ≠ [])
    (hbytes : ∀ b ∈ bytes, isPlain b = false) (u x : Bytes) :
    word <:+: u ++ (bytes ++ x) ↔ word <:+: u ∨ word <:+: x := by
  obtain ⟨b, more, rfl⟩ := List.exists_cons_of_ne_nil hne
  rw [List.forall_mem_cons] at hbytes
  rw [List.cons_append, infix_append_cons (h.notMem hbytes.1)]
  obtain ⟨l, m, rest, rfl, -⟩ := h.start
  have hnotMem : l ∉ more := fun hmem => h.notMem (hbytes.2 l hmem) List.mem_cons_self
  rw [infix_append_of_notMem _ _ hnotMem]

end Keyword

theorem escaped_append {bytes : Bytes} (h : ∀ b ∈ bytes, escapes.lookup b.toNat = none)
    (x word : Bytes) : Escaped (bytes ++ x) word ↔ Escaped x word := by
  have hnotMem : ∀ {c l : UInt8}, escapes.lookup c.toNat = some l → c ∉ bytes := fun hc hmem => by
    rw [h _ hmem] at hc
    cases hc
  constructor
  · rintro ⟨c, l, rest, hword, hc, hfound⟩
    exact ⟨c, l, rest, hword, hc, (infix_append_of_notMem rest x (hnotMem hc)).mp hfound⟩
  · rintro ⟨c, l, rest, hword, hc, hfound⟩
    exact ⟨c, l, rest, hword, hc, (infix_append_of_notMem rest x (hnotMem hc)).mpr hfound⟩

theorem escaped_cons {c l : UInt8} (h : escapes.lookup c.toNat = some l) {word : Bytes}
    (hne : word ≠ []) (x : Bytes) :
    Escaped (c :: x) word ↔ word <+: l :: x ∨ Escaped x word := by
  constructor
  · rintro ⟨c', l', rest, rfl, hc, hfound⟩
    rcases List.infix_cons_iff.mp hfound with hp | hi
    · rw [List.cons_prefix_cons] at hp
      obtain ⟨rfl, hp⟩ := hp
      rw [h, Option.some.injEq] at hc
      exact .inl (List.cons_prefix_cons.mpr ⟨hc.symm, hp⟩)
    · exact .inr ⟨c', l', rest, rfl, hc, hi⟩
  · rintro (hp | ⟨c', l', rest, rfl, hc, hi⟩)
    · obtain ⟨l', rest, rfl⟩ := List.exists_cons_of_ne_nil hne
      rw [List.cons_prefix_cons] at hp
      obtain ⟨rfl, hp⟩ := hp
      have hfound : c :: rest <+: c :: x := List.cons_prefix_cons.mpr ⟨rfl, hp⟩
      exact ⟨c, l', rest, rfl, h, hfound.isInfix⟩
    · exact ⟨c', l', rest, rfl, hc, List.infix_cons_iff.mpr (.inr hi)⟩

/-- What is found in the quoted segments behind the string `u`, which is not changed. -/
theorem infix_append_quoted {q : Rune × Bytes → Bytes} {word : Bytes} (h : Keyword word) :
    ∀ {l : List (Rune × Bytes)} (u : Bytes), (∀ e ∈ l, Quoted e.2 (q e)) →
    (word <:+: u ++ l.flatMap q ↔
      word <:+: u ++ l.flatMap Prod.snd ∨ Escaped (l.flatMap Prod.snd) word)
  | [], u, _ => by
    have hnone : ¬ Escaped [] word := by
      rintro ⟨c, l, rest, -, -, hfound⟩
      simp at hfound
    simp [hnone]
  | e :: l, u, hq => by
    rw [List.forall_mem_cons] at hq
    obtain ⟨he, hq⟩ := hq
    have hne : word ≠ [] := by
      obtain ⟨k, m, rest, rfl, -⟩ := h.start
      simp
    have hslash : (92 : UInt8) ∉ word := h.notMem (by decide)
    rw [List.flatMap_cons, List.flatMap_cons]
    generalize hout : q e = out at he
    cases he with
    | verbatim hbytes =>
      rw [← List.append_assoc, infix_append_quoted h (u ++ e.2) hq, escaped_append hbytes,
        List.append_assoc]
    | @letter c k hbytes hplain hk =>
      have hcons : [92, k] ++ l.flatMap q = 92 :: ([k] ++ l.flatMap q) := rfl
      rw [hcons, infix_append_cons hslash, infix_append_quoted h [k] hq, hbytes,
        List.singleton_append, List.singleton_append, infix_append_cons (h.notMem hplain),
        escaped_cons hk hne, List.infix_cons_iff]
      tauto
    | @same c hbytes hc =>
      have hplain : isPlain c = false := by rcases hc with rfl | rfl <;> decide
      have hlookup : escapes.lookup c.toNat = none := by rcases hc with rfl | rfl <;> decide
      have hnone : ∀ b ∈ [c], escapes.lookup b.toNat = none := by simpa using hlookup
      have hcons : [92, c] ++ l.flatMap q = 92 :: ([c] ++ l.flatMap q) := rfl
      have hsep := h.infix_append_bytes (List.cons_ne_nil c []) (by simpa using hplain)
      rw [hcons, infix_append_cons hslash, infix_append_quoted h [c] hq, hbytes, hsep,
        escaped_append hnone, ← List.nil_append ([c] ++ _), hsep, List.infix_nil]
      simp only [hne, false_or, or_assoc]
    | @hex c digits hnil hbytes hc hdigits hhex =>
      have hcons : 92 :: c :: digits ++ l.flatMap q = 92 :: (c :: digits ++ l.flatMap q) := rfl
      rw [hcons, infix_append_cons hslash, infix_append_quoted h (c :: digits) hq,
        h.infix_hex hc hdigits hhex, h.infix_append_bytes hnil fun b hb => (hbytes b hb).1,
        escaped_append fun b hb => (hbytes b hb).2, or_assoc]

theorem infix_append_quote (isPrint : Rune → Bool) {word : Bytes} (h : Keyword word)
    (before s : Bytes) :
    word <:+: before ++ quote isPrint s ↔ word <:+: before ∨ Spelled s word := by
  have hquote : (34 : UInt8) ∉ word := h.notMem (by decide)
  have hne : word ≠ [] := by
    obtain ⟨k, m, rest, rfl, -⟩ := h.start
    simp
  have hsegments := infix_append_quoted h (q := quoteRune isPrint) (l := segments s) []
    fun e he => quoted_of_mem_segments isPrint he
  rw [List.nil_append, List.nil_append, flatMap_snd_segments] at hsegments
  rw [quote, infix_append_cons hquote, infix_append_cons hquote, hsegments, List.infix_nil]
  simp only [hne, or_false]
  rfl

/-! ## Deciding it -/

/-- The words with an escaped character for the first letter of a word. -/
def escapedSpellings : Bytes → List Bytes
  | [] => []
  | l :: rest => (escapes.filter (fun e => e.2 = l)).map (fun e => UInt8.ofNat e.1 :: rest)

/-- The word is in the string after it has been quoted. -/
def spelled (s word : Bytes) : Bool :=
  contains s word || (escapedSpellings word).any (contains s)

theorem lookup_escapes_iff {c l : UInt8} :
    escapes.lookup c.toNat = some l ↔ ∃ e ∈ escapes, e.2 = l ∧ UInt8.ofNat e.1 = c := by
  constructor
  · intro h
    obtain ⟨before, after, heq, -⟩ := List.lookup_eq_some_iff.mp h
    refine ⟨(c.toNat, l), ?_, rfl, UInt8.ofNat_toNat⟩
    rw [heq]
    simp
  · rintro ⟨e, he, rfl, rfl⟩
    have hall : ∀ e ∈ escapes, escapes.lookup (UInt8.ofNat e.1).toNat = some e.2 := by decide
    exact hall e he

theorem spelled_iff {s word : Bytes} : spelled s word = true ↔ Spelled s word := by
  rw [spelled, Bool.or_eq_true, contains_iff]
  refine or_congr_right ?_
  rw [List.any_eq_true]
  cases word with
  | nil =>
    refine ⟨fun h => ?_, fun h => ?_⟩
    · obtain ⟨_, hmem, -⟩ := h
      cases hmem
    · obtain ⟨_, _, _, hnil, -⟩ := h
      cases hnil
  | cons l rest =>
    constructor
    · rintro ⟨w, hw, hfound⟩
      obtain ⟨e, he, rfl⟩ := List.mem_map.mp hw
      obtain ⟨he, hl⟩ := List.mem_filter.mp he
      exact ⟨_, l, rest, rfl, lookup_escapes_iff.mpr ⟨e, he, of_decide_eq_true hl, rfl⟩,
        contains_iff.mp hfound⟩
    · rintro ⟨c, l', rest', heq, hc, hfound⟩
      obtain ⟨rfl, rfl⟩ := List.cons.inj heq
      obtain ⟨e, he, hl, rfl⟩ := lookup_escapes_iff.mp hc
      exact ⟨_, List.mem_map.mpr ⟨e, List.mem_filter.mpr ⟨he, decide_eq_true hl⟩, rfl⟩,
        contains_iff.mpr hfound⟩

theorem contains_append_quote (isPrint : Rune → Bool) {word : Bytes} (h : Keyword word)
    (before s : Bytes) :
    contains (before ++ quote isPrint s) word = (contains before word || spelled s word) := by
  rw [Bool.eq_iff_iff, Bool.or_eq_true, spelled_iff, contains_iff, contains_iff]
  exact infix_append_quote isPrint h before s

theorem contains_of_notMem {s word : Bytes} {b : UInt8} (hword : b ∈ word) (hs : b ∉ s) :
    contains s word = false :=
  Bool.eq_false_iff.mpr fun h => hs ((contains_iff.mp h).subset hword)

end Infra

import NodeAgent.L7.Text

/-!
# Commands of Redis

A client sends a command as an array of bulk strings, each with its length before it. `ParseRedis`
does not look at the lengths: a string ends for it at the first line end.

* `parseRedis_respArray_iff` — the commands that are decoded
-/

namespace L7

open Infra

/-! ## The encoding -/

def bulk (s : Bytes) : Bytes := 36 :: (decimal s.length ++ (crlf ++ (s ++ crlf)))

def respArray (items : List Bytes) : Bytes :=
  42 :: (decimal items.length ++ (crlf ++ items.flatMap bulk))

/-- What there is to say about the arguments: the first one, and that there are more. -/
def shownArgs : List Bytes → Bytes
  | [] => []
  | [a] => a
  | a :: _ => a ++ ascii " ..."

/-! ## Reading -/

theorem not_crlf_infix_decimal {x : UInt8} (hx : x ≠ 13) (n : Nat) :
    ¬ crlf <:+: x :: decimal n := by
  intro h
  have hmem : (13 : UInt8) ∈ x :: decimal n := h.subset List.mem_cons_self
  rcases List.mem_cons.mp hmem with rfl | hmem
  · exact hx rfl
  · exact absurd (digit_of_mem_decimal hmem).1 (by decide)

theorem cut_line {line : Bytes} (h : ¬ crlf <:+: line) (rest : Bytes) :
    cut crlf (line ++ (crlf ++ rest)) = some (line, rest) :=
  cut_append_pair (by decide) rest h

theorem cut_length (x : UInt8) (hx : x ≠ 13) (n : Nat) (rest : Bytes) :
    cut crlf (x :: (decimal n ++ (crlf ++ rest))) = some (x :: decimal n, rest) :=
  cut_line (not_crlf_infix_decimal hx n) rest

theorem readString_eq (s rest : Bytes) : readString (bulk s ++ rest) =
    (cut crlf (s ++ (crlf ++ rest))).getD ([], []) := by
  have hheader : cut crlf (bulk s ++ rest) =
      some (36 :: decimal s.length, s ++ (crlf ++ rest)) := by
    have := cut_length 36 (by decide) s.length (s ++ (crlf ++ rest))
    rw [← this, bulk]
    simp only [List.cons_append, List.append_assoc]
  have hdollar : hasPrefix (36 :: decimal s.length) (ascii "$") = true :=
    hasPrefix_append [36] (decimal s.length)
  rw [readString, hheader]
  simp only [hdollar, Bool.not_true, Bool.false_eq_true, if_false]
  cases cut crlf (s ++ (crlf ++ rest)) <;> rfl

theorem readString_bulk {s : Bytes} (h : ¬ crlf <:+: s) (rest : Bytes) :
    readString (bulk s ++ rest) = (s, rest) := by
  rw [readString_eq, cut_line h]
  rfl

theorem exists_readString_bulk {s : Bytes} (h : crlf <:+: s) (rest : Bytes) :
    ∃ v r, readString (bulk s ++ rest) = (v, r) ∧ v.length < s.length := by
  obtain ⟨v, r, hcut, hlt⟩ := exists_cut_of_infix (by decide) h (crlf ++ rest)
  refine ⟨v, r, ?_, hlt⟩
  rw [readString_eq, hcut]
  rfl

/-! ## Commands -/

theorem parseUint32_decimal : ∀ n < 100, parseUint32 (decimal n) = some n := by decide +kernel

/-- The part of `ParseRedis` behind the number of items. -/
def readCommand (arrayLen : Nat) (rest : Bytes) : Bytes × Bytes :=
  let (cmd, rest) := readString rest
  if cmd = [] then ([], [])
  else if arrayLen > 1 then
    let (args, _) := readString rest
    (cmd, if arrayLen > 2 then args ++ ascii " ..." else args)
  else (cmd, [])

theorem parseRedis_respArray {items : List Bytes} (hlen : items.length < 100) :
    parseRedis (respArray items) = .ok (readCommand items.length (items.flatMap bulk)) := by
  have hstar : hasPrefix (42 :: decimal items.length) (ascii "*") = true :=
    hasPrefix_append [42] (decimal items.length)
  have hdigits : sliceFrom (42 :: decimal items.length) 1 = .ok (decimal items.length) :=
    sliceFrom_eq_ok (by simp)
  rw [parseRedis, respArray, cut_length 42 (by decide)]
  simp only [hstar, Bool.not_true, Bool.false_eq_true, if_false, hdigits, bind, Except.bind]
  rw [parseUint32_decimal _ hlen, readCommand]
  simp only
  split
  · rfl
  split
  · split <;> rfl
  · rfl

theorem readCommand_fst (arrayLen : Nat) (rest : Bytes) :
    (readCommand arrayLen rest).1 = (readString rest).1 := by
  rw [readCommand]
  simp only
  split
  · next hcmd => exact hcmd.symm
  split <;> rfl

theorem readCommand_cons {cmd a : Bytes} (hcmd : cmd ≠ []) (hline : ¬ crlf <:+: cmd)
    (args : List Bytes) :
    readCommand (args.length + 2) (bulk cmd ++ (bulk a ++ args.flatMap bulk)) =
        (cmd, shownArgs (a :: args)) ↔
      (readString (bulk a ++ args.flatMap bulk)).1 = a := by
  rw [readCommand, readString_bulk hline]
  simp only [if_neg hcmd, if_pos (show args.length + 2 > 1 by omega), Prod.mk.injEq, true_and]
  cases args with
  | nil => exact Iff.rfl
  | cons b args =>
    rw [if_pos (show (b :: args).length + 2 > 2 by simp), shownArgs, List.append_left_inj]
    exact nofun

/-- **A command of one to 99 strings is decoded if and only if there is no line end in the first
string, and none in the second.** -/
theorem parseRedis_respArray_iff {cmd : Bytes} {args : List Bytes} (hcmd : cmd ≠ [])
    (hlen : args.length < 99) :
    parseRedis (respArray (cmd :: args)) = .ok (cmd, shownArgs args) ↔
      ¬ crlf <:+: cmd ∧ ∀ a ∈ args.head?, ¬ crlf <:+: a := by
  rw [parseRedis_respArray (by rw [List.length_cons]; omega), Except.ok.injEq, List.length_cons,
    List.flatMap_cons]
  by_cases hline : crlf <:+: cmd
  · -- the command ends too early
    refine iff_of_false (fun heq => ?_) fun h => h.1 hline
    obtain ⟨v, r, hread, hlt⟩ := exists_readString_bulk hline (args.flatMap bulk)
    have hfst := readCommand_fst (args.length + 1) (bulk cmd ++ args.flatMap bulk)
    rw [heq, hread] at hfst
    rw [show cmd = v from hfst] at hlt
    exact Nat.lt_irrefl _ hlt
  cases args with
  | nil =>
    refine iff_of_true ?_ ⟨hline, fun a ha => by cases ha⟩
    rw [readCommand, readString_bulk hline]
    simp only [if_neg hcmd]
    rfl
  | cons a args =>
    rw [List.length_cons, List.flatMap_cons, readCommand_cons hcmd hline]
    by_cases hlineA : crlf <:+: a
    · -- the argument ends too early
      refine iff_of_false (fun heq => ?_) fun h => h.2 a rfl hlineA
      obtain ⟨v, r, hread, hlt⟩ := exists_readString_bulk hlineA (args.flatMap bulk)
      rw [hread] at heq
      rw [show a = v from heq.symm] at hlt
      exact Nat.lt_irrefl _ hlt
    · refine iff_of_true ?_ ⟨hline, fun b hb => ?_⟩
      · rw [readString_bulk hlineA]
      · cases hb
        exact hlineA

/-- `SET key value` -/
theorem parseRedis_set : parseRedis (respArray [ascii "SET", ascii "$1\r", ascii "value"]) =
    .ok (ascii "SET", ascii "$1\r ...") :=
  (parseRedis_respArray_iff (by decide) (by decide)).mpr (by decide)

/-- **A key with a line end in it is cut off there.** -/
theorem parseRedis_line_end : parseRedis (respArray [ascii "GET", ascii "a\r\nb"]) =
    .ok (ascii "GET", ascii "a") := by
  decide +kernel

end L7

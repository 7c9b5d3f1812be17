import NodeAgent.Infra.Delimited
import NodeAgent.Ebpf.Endings
import NodeAgent.L7.Text

/-!
# Commands of memcached

The requests of the text protocol, and what `ParseMemcached` makes of them. It takes the key of a
command up to the next space, and there is none behind the key of a `delete` that wants a reply.

* `parseMemcached_wire_iff` — the requests that are decoded
-/

namespace L7

open Infra

/-! ## Requests -/

structure Word where
  bytes : Bytes
  clean : ∀ b ∈ bytes, b ≠ 32 ∧ b ≠ 13 ∧ b ≠ 10

theorem clean_of_all {bytes : Bytes}
    (h : bytes.all (fun b => decide (b ≠ 32 ∧ b ≠ 13 ∧ b ≠ 10)) = true) :
    ∀ b ∈ bytes, b ≠ 32 ∧ b ≠ 13 ∧ b ≠ 10 :=
  fun b hb => of_decide_eq_true (List.all_eq_true.mp h b hb)

inductive StoreCommand where
  | set
  | add
  | replace
  | append
  | prepend

def StoreCommand.name : StoreCommand → Bytes
  | set => ascii "set"
  | add => ascii "add"
  | replace => ascii "replace"
  | append => ascii "append"
  | prepend => ascii "prepend"

/-- The requests. The data block of a command that stores follows its command line. -/
inductive MemcachedRequest where
  | store (command : StoreCommand) (key flags exptime : Word) (noreply : Bool) (data : Bytes)
  | cas (key flags exptime unique : Word) (noreply : Bool) (data : Bytes)
  | delete (key : Word) (noreply : Bool)
  | incr (key value : Word) (noreply : Bool)
  | decr (key value : Word) (noreply : Bool)
  | touch (key exptime : Word) (noreply : Bool)
  | get (key : Word) (keys : List Word)
  | gets (key : Word) (keys : List Word)
  | gat (exptime key : Word) (keys : List Word)
  | gats (exptime key : Word) (keys : List Word)

namespace MemcachedRequest

def command : MemcachedRequest → Bytes
  | store command .. => command.name
  | cas .. => ascii "cas"
  | delete .. => ascii "delete"
  | incr .. => ascii "incr"
  | decr .. => ascii "decr"
  | touch .. => ascii "touch"
  | get .. => ascii "get"
  | gets .. => ascii "gets"
  | gat .. => ascii "gat"
  | gats .. => ascii "gats"

def keys : MemcachedRequest → List Bytes
  | store _ key .. | cas key .. | delete key _ | incr key .. | decr key .. | touch key .. =>
    [key.bytes]
  | get key keys | gets key keys | gat _ key keys | gats _ key keys =>
    key.bytes :: keys.map Word.bytes

/-- `[noreply]` -/
def reply (noreply : Bool) : List Bytes := if noreply then [ascii "noreply"] else []

def fields : MemcachedRequest → List Bytes
  | store _ key flags exptime noreply data =>
    [key.bytes, flags.bytes, exptime.bytes, decimal data.length] ++ reply noreply
  | cas key flags exptime unique noreply data =>
    [key.bytes, flags.bytes, exptime.bytes, decimal data.length, unique.bytes] ++ reply noreply
  | delete key noreply => key.bytes :: reply noreply
  | incr key value noreply | decr key value noreply => [key.bytes, value.bytes] ++ reply noreply
  | touch key exptime noreply => [key.bytes, exptime.bytes] ++ reply noreply
  | get key keys | gets key keys => key.bytes :: keys.map Word.bytes
  | gat exptime key keys | gats exptime key keys =>
    exptime.bytes :: key.bytes :: keys.map Word.bytes

def block : MemcachedRequest → Bytes
  | store _ _ _ _ _ data | cas _ _ _ _ _ data => data ++ crlf
  | _ => []

def wire (r : MemcachedRequest) : Bytes :=
  space.intercalate (r.command :: r.fields) ++ (crlf ++ r.block)

end MemcachedRequest

/-! ## The parser on a command line -/

theorem Word.space_notMem (w : Word) : (32 : UInt8) ∉ w.bytes := fun h => (w.clean 32 h).1 rfl

theorem Word.cr_notMem (w : Word) : (13 : UInt8) ∉ w.bytes := fun h => (w.clean 13 h).2.1 rfl

theorem cut_words {word : Bytes} (h : (32 : UInt8) ∉ word) (next : Bytes) (words : List Bytes)
    (rest : Bytes) : cut space (space.intercalate (word :: next :: words) ++ rest) =
      some (word, space.intercalate (next :: words) ++ rest) := by
  rw [List.intercalate_cons_cons, List.append_assoc, List.append_assoc]
  exact cut_append_cons _ h

theorem cut_keys {keys : List Word} (hkeys : keys ≠ []) (rest : Bytes) :
    cut crlf (space.intercalate (keys.map Word.bytes) ++ (crlf ++ rest)) =
      some (space.intercalate (keys.map Word.bytes), rest) ∧
    (space.intercalate (keys.map Word.bytes)).splitOn 32 = keys.map Word.bytes := by
  constructor
  · refine cut_append_pair (by decide) rest fun h => ?_
    rcases mem_intercalate (h.subset List.mem_cons_self) with h | ⟨w, hw, h⟩
    · cases h
    · obtain ⟨word, _, rfl⟩ := List.mem_map.mp hw
      exact word.cr_notMem h
  · refine List.splitOn_intercalate 32 (fun w hw => ?_) (by simpa using hkeys)
    obtain ⟨word, _, rfl⟩ := List.mem_map.mp hw
    exact word.space_notMem

section

variable {name : Bytes} {rest : Bytes}

theorem parseMemcached_key (hname : name ∈ keyCommands) (key : Word) (next : Bytes)
    (words : List Bytes) :
    parseMemcached (space.intercalate (name :: key.bytes :: next :: words) ++ rest) =
      .ok (name, [key.bytes]) := by
  have hspace : (32 : UInt8) ∉ name := by
    have hall : ∀ n ∈ keyCommands, (32 : UInt8) ∉ n := by decide
    exact hall name hname
  rw [parseMemcached, cut_words hspace]
  simp only [if_pos hname, cut_words key.space_notMem]
  rfl

theorem parseMemcached_get (hname : name ∈ getCommands) {keys : List Word}
    (hkeys : keys ≠ []) :
    parseMemcached (space.intercalate (name :: keys.map Word.bytes) ++ (crlf ++ rest)) =
      .ok (name, keys.map Word.bytes) := by
  have hall : ∀ n ∈ getCommands, (32 : UInt8) ∉ n ∧ n ∉ keyCommands ∧ n ∉ gatCommands := by
    decide
  obtain ⟨hspace, hkey, hgat⟩ := hall name hname
  obtain ⟨hcut, hsplit⟩ := cut_keys hkeys rest
  have hwords : cut space (space.intercalate (name :: keys.map Word.bytes) ++ (crlf ++ rest)) =
      some (name, space.intercalate (keys.map Word.bytes) ++ (crlf ++ rest)) := by
    cases keys with
    | nil => exact absurd rfl hkeys
    | cons key keys => exact cut_words hspace _ _ _
  rw [parseMemcached, hwords]
  simp only [if_neg hkey, if_neg hgat, if_pos hname, hcut, hsplit]
  rfl

theorem parseMemcached_gat (hname : name ∈ gatCommands) (exptime : Word)
    {keys : List Word} (hkeys : keys ≠ []) :
    parseMemcached (space.intercalate (name :: exptime.bytes :: keys.map Word.bytes) ++
      (crlf ++ rest)) = .ok (name, keys.map Word.bytes) := by
  have hall : ∀ n ∈ gatCommands, (32 : UInt8) ∉ n ∧ n ∉ keyCommands := by decide
  obtain ⟨hspace, hkey⟩ := hall name hname
  obtain ⟨hcut, hsplit⟩ := cut_keys hkeys rest
  have hwords : cut space (space.intercalate (exptime.bytes :: keys.map Word.bytes) ++
      (crlf ++ rest)) = some (exptime.bytes, space.intercalate (keys.map Word.bytes) ++
        (crlf ++ rest)) := by
    cases keys with
    | nil => exact absurd rfl hkeys
    | cons key keys => exact cut_words exptime.space_notMem _ _ _
  rw [parseMemcached, cut_words hspace]
  simp only [if_neg hkey, if_pos hname, hwords, hcut, hsplit]
  rfl

end

theorem parseMemcached_delete_reply (key : Word) :
    parseMemcached (MemcachedRequest.delete key false).wire = .ok ([], []) := by
  have hwire : (MemcachedRequest.delete key false).wire =
      space.intercalate [ascii "delete", key.bytes] ++ crlf := rfl
  have hnone : cut space (key.bytes ++ crlf) = none := by
    refine cut_eq_none fun h => ?_
    rcases List.mem_append.mp h with h | h
    · exact key.space_notMem h
    · revert h
      decide
  rw [hwire, parseMemcached, cut_words (by decide), List.intercalate_singleton]
  simp only [if_pos (show ascii "delete" ∈ keyCommands by decide), hnone]
  rfl

/-! ## The requests that are decoded -/

theorem StoreCommand.name_mem (command : StoreCommand) : command.name ∈ keyCommands := by
  cases command <;> decide

open MemcachedRequest in
/-- **A request is decoded, with its command and all its keys, if and only if it is not a `delete`
that wants a reply.** -/
theorem parseMemcached_wire_iff (r : MemcachedRequest) :
    parseMemcached r.wire = .ok (r.command, r.keys) ↔ ∀ key, r ≠ .delete key false := by
  cases r with
  | store command key flags exptime noreply data =>
    exact iff_of_true (parseMemcached_key command.name_mem key flags.bytes _) nofun
  | cas key flags exptime unique noreply data =>
    have hname : ascii "cas" ∈ keyCommands := by decide
    exact iff_of_true (parseMemcached_key hname key flags.bytes _) nofun
  | delete key noreply =>
    cases noreply with
    | true =>
      have hname : ascii "delete" ∈ keyCommands := by decide
      exact iff_of_true (parseMemcached_key hname key (ascii "noreply") []) nofun
    | false =>
      refine iff_of_false ?_ fun h => h key rfl
      rw [parseMemcached_delete_reply]
      exact fun h => absurd (Prod.mk.inj (Except.ok.inj h)).2 (by simp [keys])
  | incr key value noreply =>
    have hname : ascii "incr" ∈ keyCommands := by decide
    exact iff_of_true (parseMemcached_key hname key value.bytes _) nofun
  | decr key value noreply =>
    have hname : ascii "decr" ∈ keyCommands := by decide
    exact iff_of_true (parseMemcached_key hname key value.bytes _) nofun
  | touch key exptime noreply =>
    have hname : ascii "touch" ∈ keyCommands := by decide
    exact iff_of_true (parseMemcached_key hname key exptime.bytes _) nofun
  | get key keys =>
    have hname : ascii "get" ∈ getCommands := by decide
    exact iff_of_true (parseMemcached_get hname (List.cons_ne_nil key keys)) nofun
  | gets key keys =>
    have hname : ascii "gets" ∈ getCommands := by decide
    exact iff_of_true (parseMemcached_get hname (List.cons_ne_nil key keys)) nofun
  | gat exptime key keys =>
    have hname : ascii "gat" ∈ gatCommands := by decide
    exact iff_of_true (parseMemcached_gat hname exptime (List.cons_ne_nil key keys)) nofun
  | gats exptime key keys =>
    have hname : ascii "gats" ∈ gatCommands := by decide
    exact iff_of_true (parseMemcached_gat hname exptime (List.cons_ne_nil key keys)) nofun

/-- `delete user:42`, which the kernel takes for a command of memcached. -/
def deleteRequest : MemcachedRequest := .delete ⟨ascii "user:42", clean_of_all (by decide)⟩ false

/-- **The command and the key are lost.** -/
theorem parseMemcached_delete :
    deleteRequest.wire = ascii "delete user:42\r\n" ∧
    Ebpf.isMemcachedQuery (.ofBytes deleteRequest.wire) deleteRequest.wire.length = true ∧
    parseMemcached deleteRequest.wire = .ok ([], []) ∧
    deleteRequest.command = ascii "delete" ∧ deleteRequest.keys = [ascii "user:42"] := by
  refine ⟨?_, ?_, ?_, ?_, ?_⟩ <;> decide +kernel

end L7

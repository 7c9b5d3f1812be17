import NodeAgent.Infra.Cut
import NodeAgent.Infra.Slices
import NodeAgent.L7.Http2

/-!
# Text protocols (`ebpftracer/l7/http.go`, `redis.go`, `memcached.go`)

The functions that find the command of a request in the payload of an event, for HTTP, Redis and
memcached. They cut the payload at spaces and line ends. An error is the zero value.
-/

namespace L7

open Infra

def space : Bytes := [32]

def crlf : Bytes := [13, 10]

/-! ## HTTP -/

/-- The method and the URI. A URI that does not end in the payload is marked. -/
def parseHttp (payload : Bytes) : Checked (Bytes × Bytes) :=
  match cut space payload with
  | none => return ([], [])
  | some (method, rest) =>
    if !isHttpMethod method then return ([], [])
    else
      match cut space rest with
      | some (uri, _) => return (method, uri)
      | none => return (method, rest ++ ascii "...")

/-! ## Redis -/

/-- `strconv.ParseUint(s, 10, 32)`, `none` where it returns an error. -/
def parseUint32 (s : Bytes) : Option Nat :=
  if s = [] then none else (parseDigits 0 s).filter (· < 2 ^ 32)

/-- The closure `readString`: the next bulk string, and what `rest` is after it. -/
def readString (rest : Bytes) : Bytes × Bytes :=
  match cut crlf rest with
  | none => ([], [])
  | some (v, rest) =>
    if !hasPrefix v (ascii "$") then ([], rest)
    else
      match cut crlf rest with
      | none => ([], [])
      | some (v, rest) => (v, rest)

def parseRedis (payload : Bytes) : Checked (Bytes × Bytes) :=
  match cut crlf payload with
  | none => return ([], [])
  | some (v, rest) =>
    if !hasPrefix v (ascii "*") then return ([], [])
    else do
      let digits ← sliceFrom v 1
      match parseUint32 digits with
      | none => return ([], [])
      | some arrayLen =>
        let (cmd, rest) := readString rest
        if cmd = [] then return ([], [])
        else if arrayLen > 1 then
          let (args, _) := readString rest
          if arrayLen > 2 then return (cmd, args ++ ascii " ...") else return (cmd, args)
        else return (cmd, [])

/-! ## memcached -/

/-- The commands with one key, which comes first. -/
def keyCommands : List Bytes :=
  ["set", "add", "cas", "append", "prepend", "replace", "delete", "incr", "decr", "touch"].map ascii

/-- The commands with an expiration time and keys. -/
def gatCommands : List Bytes := ["gat", "gats"].map ascii

def getCommands : List Bytes := ["get", "gets"].map ascii

def parseMemcached (payload : Bytes) : Checked (Bytes × List Bytes) :=
  match cut space payload with
  | none => return ([], [])
  | some (command, rest) =>
    if command ∈ keyCommands then
      match cut space rest with
      | some (key, _) => return (command, [key])
      | none => return ([], [])
    else if command ∈ gatCommands then
      match cut space rest with
      | none => return ([], [])
      | some (_, rest) =>
        match cut crlf rest with
        | some (keys, _) => return (command, keys.splitOn 32)
        | none => return ([], [])
    else if command ∈ getCommands then
      match cut crlf rest with
      | some (keys, _) => return (command, keys.splitOn 32)
      | none => return ([], [])
    else return ([], [])

end L7

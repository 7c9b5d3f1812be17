import NodeAgent.L7.Text

/-!
# ZooKeeper (`ebpftracer/l7/zookeeper.go`)

The operation of a request and the path that it is about. The reader over the payload is what is
left of it; `binary.Read` fails when less is left than it has to read.

* `zkParse_noPanic` — whatever is left of the payload
-/

namespace L7

open Infra Ebpf

def zkPathOps : List (Int × Bytes) :=
  [(1, ascii "create"), (2, ascii "delete"), (3, ascii "exists"), (4, ascii "getData"),
    (5, ascii "setData"), (6, ascii "getAcl"), (7, ascii "setAcl"), (8, ascii "getChildren"),
    (9, ascii "sync"), (12, ascii "getChildren2"), (13, ascii "check"),
    (19, ascii "createContainer"), (21, ascii "createTTL")]

/-- The operations that are reported without one. -/
def zkBareOps : List (Int × Bytes) :=
  [(11, ascii "ping"), (16, ascii "reconfig"), (-11, ascii "close"), (100, ascii "setAuth"),
    (101, ascii "setWatches")]

def zkOpMulti : Int := 14

/-- The size of a `zkMultiHeader`: two numbers and a byte. -/
def zkMultiHeaderSize : Nat := 9

/-- The size of a `zkRequestHeader`: three numbers. -/
def zkRequestHeaderSize : Nat := 12

/-- An `int32` in network order. -/
def int32 (b : Bytes) : Int := signed 32 (big (b.take 4))

def zkReadString (r : Bytes) : Checked Bytes :=
  if r.length < 4 then return []
  else
    let l := big (r.take 4)
    let r := r.drop 4
    if l > 1024 then return []
    -- a read at the end of the payload is an error
    else if r = [] then return []
    else do
      let n := min l r.length
      let res := r.take n ++ List.replicate (l - n) 0
      let read ← slice res 0 n
      if n < l then return read ++ ascii "...<TRUNCATED>" else return read

def zkParse (r : Bytes) (opCode : Int) : Checked (Bytes × Bytes) :=
  match zkPathOps.lookup opCode, zkBareOps.lookup opCode with
  | some op, _ => do
    let path ← zkReadString r
    return (op, path)
  | none, some op => return (op, [])
  | none, none =>
    if opCode = zkOpMulti then
      if r.length < zkMultiHeaderSize then return ([], [])
      else do
        let (op, arg) ← zkParse (r.drop zkMultiHeaderSize) (int32 r)
        return (ascii "multi(" ++ op ++ ascii ", ...)", arg)
    else return ([], [])
termination_by r.length
decreasing_by
  rw [List.length_drop]
  unfold zkMultiHeaderSize at *
  omega

def parseZookeeper (payload : Bytes) : Checked (Bytes × Bytes) :=
  if payload.length < zkRequestHeaderSize then return ([], [])
  else zkParse (payload.drop zkRequestHeaderSize) (int32 (payload.drop 8))

theorem zkReadString_noPanic (r : Bytes) : NoPanic (zkReadString r) := by
  unfold zkReadString
  dsimp only
  split
  · exact noPanic_ok _
  split
  · exact noPanic_ok _
  split
  · exact noPanic_ok _
  · -- the buffer has as many bytes as were asked for
    rw [slice_eq_ok (Nat.zero_le _) (by
      rw [List.length_append, List.length_take, List.length_replicate]
      omega)]
    refine noPanic_bind (noPanic_ok _) fun read _ => ?_
    split <;> exact noPanic_ok _

theorem zkParse_noPanic (r : Bytes) (opCode : Int) : NoPanic (zkParse r opCode) := by
  rw [zkParse]
  split
  · exact noPanic_bind (zkReadString_noPanic r) fun path _ => noPanic_ok _
  · exact noPanic_ok _
  split
  · split
    · exact noPanic_ok _
    · -- a part of the transaction, with less of the payload
      rename_i hlong
      exact noPanic_bind (zkParse_noPanic (r.drop zkMultiHeaderSize) (int32 r))
        fun answer _ => noPanic_ok _
  · exact noPanic_ok _
termination_by r.length
decreasing_by
  rw [List.length_drop]
  unfold zkMultiHeaderSize at *
  omega

theorem parseZookeeper_noPanic (payload : Bytes) : NoPanic (parseZookeeper payload) := by
  unfold parseZookeeper
  split
  · exact noPanic_ok _
  · exact zkParse_noPanic _ _

/-- A path that does not end in the payload. -/
example : zkReadString (toBigEndian 4 9 ++ ascii "/app") =
    .ok (ascii "/app...<TRUNCATED>") := by decide +kernel

end L7

import NodeAgent.Ebpf.Replies
import NodeAgent.L7.Zookeeper

/-!
# ZooKeeper requests that are cut off

A request is a header, a multi header for each transaction that the operation lies in, and the
operation with its path. The payload may end anywhere in it.

* `parseZookeeper_cut` — what is reported of a request, wherever it is cut
-/

namespace L7

open Infra Ebpf

/-! ## Requests -/

/-- An `int32` that is not negative, in network order. -/
def int32Field (n : Int) : Bytes := toBigEndian 4 n.toNat

/-- What a `zkMultiHeader` has besides its type. -/
structure MultiHeader where
  done : UInt8
  err : Bytes
  length_err : err.length = 4

structure ZkRequest where
  length : Bytes
  length_length : length.length = 4
  xid : Bytes
  length_xid : xid.length = 4
  multis : List MultiHeader
  op : Int × Bytes
  op_mem : op ∈ zkPathOps
  path : Bytes
  length_path : path.length ≤ 1024
  rest : Bytes

/-- The type of the part that begins with these multi headers. -/
def partType (code : Int) : List MultiHeader → Int
  | [] => code
  | _ :: _ => zkOpMulti

/-- The multi headers, each with the type of what comes behind it, and then the operation. -/
def nested (code : Int) (body : Bytes) : List MultiHeader → Bytes
  | [] => body
  | h :: hs => int32Field (partType code hs) ++ h.done :: h.err ++ nested code body hs

/-- The path with its length, and whatever comes behind it. -/
def ZkRequest.body (q : ZkRequest) : Bytes :=
  toBigEndian 4 q.path.length ++ (q.path ++ q.rest)

def ZkRequest.wire (q : ZkRequest) : Bytes :=
  q.length ++ q.xid ++ int32Field (partType q.op.1 q.multis) ++ nested q.op.1 q.body q.multis

/-! ## What should be reported -/

/-- One `multi(..., ...)` for each transaction. -/
def inMultis : Nat → Bytes → Bytes
  | 0, op => op
  | n + 1, op => ascii "multi(" ++ inMultis n op ++ ascii ", ...)"

/-- The path of which `n` bytes are left. -/
def shownPath (path : Bytes) (n : Nat) : Bytes :=
  if path.length ≤ n then path
  else if n = 0 then []
  else path.take n ++ ascii "...<TRUNCATED>"

def ZkRequest.start (q : ZkRequest) : Nat :=
  zkRequestHeaderSize + zkMultiHeaderSize * q.multis.length

/-! ## Numbers -/

@[simp] theorem length_int32Field (n : Int) : (int32Field n).length = 4 := length_toBigEndian 4 _

theorem int32_field {n : Int} (h0 : 0 ≤ n) (hn : n < 2 ^ 31) (r : Bytes) :
    int32 (int32Field n ++ r) = n := by
  rw [int32, List.take_left' (length_int32Field n), int32Field, big_toBigEndian (by omega),
    signed_of_lt (by omega)]
  omega

theorem zkPathOps_code {op : Int × Bytes} (h : op ∈ zkPathOps) :
    0 ≤ op.1 ∧ op.1 < 2 ^ 31 ∧ zkPathOps.lookup op.1 = some op.2 := by
  revert op
  decide

theorem int32_partType {op : Int × Bytes} (h : op ∈ zkPathOps) (hs : List MultiHeader)
    (r : Bytes) : int32 (int32Field (partType op.1 hs) ++ r) = partType op.1 hs := by
  obtain ⟨h0, hlt, -⟩ := zkPathOps_code h
  cases hs with
  | nil => exact int32_field h0 hlt r
  | cons _ _ => exact int32_field (n := zkOpMulti) (by decide) (by decide) r

/-! ## Reading what is left -/

theorem zkReadString_length {l : Nat} (hl : l ≤ 1024) (r : Bytes) :
    zkReadString (toBigEndian 4 l ++ r) =
      .ok (if r = [] then [] else if r.length < l then r ++ ascii "...<TRUNCATED>"
        else r.take l) := by
  rw [zkReadString, if_neg (by rw [List.length_append, length_toBigEndian]; omega),
    List.take_left' (length_toBigEndian 4 _), List.drop_left' (length_toBigEndian 4 _),
    big_toBigEndian (by omega)]
  simp only [if_neg (show ¬ l > 1024 by omega)]
  split
  · rfl
  have hbuffer : min l r.length ≤
      (r.take (min l r.length) ++ List.replicate (l - min l r.length) 0).length := by
    rw [List.length_append, List.length_take]
    omega
  have hread : (r.take (min l r.length) ++ List.replicate (l - min l r.length) 0).take
      (min l r.length) = r.take l := by
    rw [List.take_left' (by rw [List.length_take]; omega), ← List.take_take]
    exact congrArg _ (List.take_of_length_le (Nat.le_refl _))
  rw [slice_eq_ok (Nat.zero_le _) hbuffer, List.drop_zero, Nat.sub_zero, hread]
  by_cases hshort : r.length < l
  · have hmin : min l r.length < l := by omega
    simp only [if_pos hshort]
    rw [List.take_of_length_le (by omega)]
    exact if_pos hmin
  · have hmin : ¬ min l r.length < l := by omega
    simp only [if_neg hshort]
    exact if_neg hmin

/-- **A path is read as far as it is there.** -/
theorem zkReadString_cut {path : Bytes} (hpath : path.length ≤ 1024) (rest : Bytes) (n : Nat) :
    zkReadString ((toBigEndian 4 path.length ++ (path ++ rest)).take n) =
      .ok (shownPath path (n - 4)) := by
  by_cases hn : n < 4
  · -- not even the length is there
    have hshort : ((toBigEndian 4 path.length ++ (path ++ rest)).take n).length < 4 := by
      rw [List.length_take]
      omega
    rw [zkReadString, if_pos hshort, shownPath, show n - 4 = 0 by omega]
    split
    · next h => rw [List.length_eq_zero_iff.mp (Nat.le_zero.mp h)]; rfl
    · rfl
  have hlen : (toBigEndian 4 path.length).length ≤ n := by
    rw [length_toBigEndian]
    omega
  rw [List.take_append, List.take_of_length_le hlen, length_toBigEndian,
    zkReadString_length hpath, shownPath]
  have hleft : ((path ++ rest).take (n - 4)).length = min (n - 4) (path.length + rest.length) := by
    rw [List.length_take, List.length_append]
  by_cases hall : path.length ≤ n - 4
  · rw [if_pos hall]
    split
    · next hnil =>
      rw [hnil, List.length_nil] at hleft
      rw [List.length_eq_zero_iff.mp (show path.length = 0 by omega)]
    · rw [if_neg (by omega), List.take_take, Nat.min_eq_left hall, List.take_left]
  · rw [if_neg hall, List.take_append_of_le_length (by omega)]
    by_cases hzero : n - 4 = 0
    · rw [if_pos hzero, hzero, List.take_zero, if_pos rfl]
    · have hne : path.take (n - 4) ≠ [] := by
        intro hnil
        have := congrArg List.length hnil
        rw [List.length_take, List.length_nil] at this
        omega
      rw [if_neg hzero, if_neg hne, if_pos (by rw [List.length_take]; omega)]

theorem zkParse_pathOp {op : Int × Bytes} (hop : op ∈ zkPathOps) (r : Bytes) :
    zkParse r op.1 = zkReadString r >>= fun path => .ok (op.2, path) := by
  rw [zkParse, (zkPathOps_code hop).2.2]
  rfl

theorem zkParse_multi (r : Bytes) : zkParse r zkOpMulti =
    if r.length < zkMultiHeaderSize then .ok ([], [])
    else zkParse (r.drop zkMultiHeaderSize) (int32 r) >>= fun part =>
      .ok (ascii "multi(" ++ part.1 ++ ascii ", ...)", part.2) := by
  rw [zkParse, show zkPathOps.lookup zkOpMulti = none by decide,
    show zkBareOps.lookup zkOpMulti = none by decide]
  simp only [if_true]
  rfl

/-- **What is read of nested transactions.** -/
theorem zkParse_cut {op : Int × Bytes} (hop : op ∈ zkPathOps) {path : Bytes}
    (hpath : path.length ≤ 1024) (rest : Bytes) : ∀ (hs : List MultiHeader) (n : Nat),
    zkParse ((nested op.1 (toBigEndian 4 path.length ++ (path ++ rest)) hs).take n)
        (partType op.1 hs) =
      .ok (if zkMultiHeaderSize * hs.length ≤ n then
          (inMultis hs.length op.2, shownPath path (n - zkMultiHeaderSize * hs.length - 4))
        else (inMultis (n / zkMultiHeaderSize) [], []))
  | [], n => by
    rw [nested, partType, zkParse_pathOp hop, zkReadString_cut hpath, List.length_nil,
      Nat.mul_zero, if_pos (Nat.zero_le n)]
    rfl
  | h :: hs, n => by
    have hsize : zkMultiHeaderSize = 9 := rfl
    have hheader : (int32Field (partType op.1 hs) ++ h.done :: h.err).length = 9 := by
      rw [List.length_append, List.length_cons, length_int32Field, h.length_err]
    rw [partType, zkParse_multi, nested, List.length_cons, hsize]
    by_cases hn : n < 9
    · -- the payload ends in this header
      rw [if_pos (by rw [List.length_take]; omega), if_neg (by omega),
        Nat.div_eq_of_lt hn]
      rfl
    · have hfits : (int32Field (partType op.1 hs) ++ h.done :: h.err).length ≤ n := by omega
      rw [if_neg (by rw [List.length_take, List.length_append]; omega), List.take_append,
        List.take_of_length_le hfits, List.drop_left' hheader, hheader, List.append_assoc,
        int32_partType hop, zkParse_cut hop hpath rest hs (n - 9), hsize]
      have hdiv : n / 9 = (n - 9) / 9 + 1 := by omega
      by_cases hrest : 9 * hs.length ≤ n - 9
      · rw [if_pos hrest, if_pos (by omega),
          show n - 9 - 9 * hs.length = n - 9 * (hs.length + 1) by omega]
        rfl
      · rw [if_neg hrest, if_neg (by omega), hdiv]
        rfl

/-! ## Requests that are cut -/

/-- **What is reported of a request, wherever it is cut.** A cut in a multi header leaves the
transactions before it, and neither the operation nor the path. -/
theorem parseZookeeper_cut (q : ZkRequest) (n : Nat) :
    parseZookeeper (q.wire.take n) =
      .ok (if n < zkRequestHeaderSize then ([], [])
        else if n < q.start then
          (inMultis ((n - zkRequestHeaderSize) / zkMultiHeaderSize) [], [])
        else (inMultis q.multis.length q.op.2, shownPath q.path (n - (q.start + 4)))) := by
  have hsize : zkRequestHeaderSize = 12 := rfl
  have hstart : q.start = 12 + zkMultiHeaderSize * q.multis.length := rfl
  have hheader : (q.length ++ q.xid ++ int32Field (partType q.op.1 q.multis)).length = 12 := by
    rw [List.length_append, List.length_append, length_int32Field, q.length_length, q.length_xid]
  have hids : (q.length ++ q.xid).length = 8 := by
    rw [List.length_append, q.length_length, q.length_xid]
  rw [parseZookeeper, hsize, ZkRequest.wire]
  by_cases hn : n < 12
  · rw [if_pos (by rw [List.length_take]; omega), if_pos hn]
    rfl
  · rw [if_neg (by rw [List.length_take, List.length_append]; omega), if_neg hn,
      List.take_append, List.take_of_length_le (by omega), List.drop_left' hheader, hheader,
      List.append_assoc (q.length ++ q.xid), List.drop_left' hids, int32_partType q.op_mem,
      ZkRequest.body, zkParse_cut q.op_mem q.length_path q.rest q.multis (n - 12)]
    by_cases hcut : n < q.start
    · rw [if_pos hcut, if_neg (by omega)]
    · rw [if_neg hcut, if_pos (by omega),
        show n - 12 - zkMultiHeaderSize * q.multis.length - 4 = n - (q.start + 4) by omega]

/-- A transaction with one `setData`. -/
def oneSetData : ZkRequest where
  length := [0, 0, 1, 74]
  length_length := rfl
  xid := [0, 204, 23, 104]
  length_xid := rfl
  multis := [⟨0, [255, 255, 255, 255], rfl⟩]
  op := (5, ascii "setData")
  op_mem := by decide
  path := ascii "/clickhouse"
  length_path := by decide
  rest := []

/-- **A cut in the multi header loses the operation and the transaction.** -/
theorem cut_in_multi_header :
    parseZookeeper (oneSetData.wire.take 16) = .ok ([], []) ∧
      inMultis oneSetData.multis.length oneSetData.op.2 = ascii "multi(setData, ...)" ∧
      zkRequestHeaderSize ≤ 16 := by
  refine ⟨?_, by decide, by decide⟩
  have htype : int32 ((oneSetData.wire.take 16).drop 8) = zkOpMulti := by decide
  rw [parseZookeeper, if_neg (by decide), htype, zkParse_multi, if_pos (by decide)]

end L7

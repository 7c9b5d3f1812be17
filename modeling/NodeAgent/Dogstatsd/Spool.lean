import NodeAgent.Infra.FilePrograms
import NodeAgent.Infra.Utf8

/-!
# The custom metric spool (`dogstatsd/spool.go`)

The operations of `CustomSpool` as programs over file system calls. Each holds the mutex of the
spool from its first call to its last, so operations do not interleave.

A path is given cleaned, as the list of its components. What the source reads from the outside is
an argument: `now` is the value of `s.now()` and `rands` are the random strings that
`os.MkdirTemp` tries. Sizes and times are integers, times in nanoseconds.
-/

namespace Dogstatsd

open Infra

inductive SpoolError where
  /-- `custom metric spool capacity exceeded` (`ErrCustomSpoolFull`) -/
  | full
  /-- `custom metric spool directory must not be empty` -/
  | directoryEmpty
  /-- `custom metric spool max bytes must be positive` -/
  | maxBytesNotPositive
  /-- `custom metric spool retention values must be positive` -/
  | retentionNotPositive
  /-- `custom metric payload batch must not be empty` -/
  | batchEmpty
  /-- `custom metric payload must not be empty` -/
  | payloadEmpty
  /-- `committed custom spool batch is empty: %s` -/
  | committedBatchEmpty (batchDir : Path)
  /-- `invalid custom spool batch entry: %s` -/
  | invalidBatchEntry (entry : Path)
  /-- `path is not a custom spool file: %q` -/
  | notSpoolFile (file : Path)
  /-- `remove abandoned custom spool batch %q: %w` -/
  | removeAbandoned (name : Name) (cause : Errno)
  /-- `quarantine corrupt custom spool batch %q: %w` -/
  | quarantineCorrupt (name : Name) (cause : Errno)
  /-- an error of a file system call, passed on -/
  | os (cause : Errno)
  deriving DecidableEq

/-- A spool. Its fields have passed the checks of `OpenCustomSpoolWithPolicy`. -/
structure CustomSpool where
  dir : Path
  maxBytes : Int
  maxAge : Int
  maxQuarantineBytes : Int
  dir_ne : dir ≠ []
  maxBytes_pos : 0 < maxBytes
  maxAge_pos : 0 < maxAge
  maxQuarantineBytes_pos : 0 < maxQuarantineBytes
  deriving DecidableEq

namespace CustomSpool

def quarantineDir (s : CustomSpool) : Path := s.dir ++ [ascii "quarantine"]

/-! ## Names -/

/-- `custom-*.ready` -/
def isLegacyName (n : Name) : Bool := hasPrefix n (ascii "custom-") && hasSuffix n (ascii ".ready")

/-- `batch-*.ready` -/
def isBatchName (n : Name) : Bool := hasPrefix n (ascii "batch-") && hasSuffix n (ascii ".ready")

/-- `chunk-*.ready` -/
def isChunkName (n : Name) : Bool := hasPrefix n (ascii "chunk-") && hasSuffix n (ascii ".ready")

/-- `.batch-*.tmp` -/
def isTempName (n : Name) : Bool := hasPrefix n (ascii ".batch-") && hasSuffix n (ascii ".tmp")

/-- `fmt.Sprintf("chunk-%06d.ready", i)` -/
def chunkName (i : Nat) : Name := ascii "chunk-" ++ zeroPadded 6 i ++ ascii ".ready"

/-- The name that `os.MkdirTemp` makes from the pattern `.batch-*.tmp`. -/
def tempName (rand : Bytes) : Name := ascii ".batch-" ++ rand ++ ascii ".tmp"

/-- `fmt.Sprintf("batch-%020d-%s.ready", batchTime, strings.TrimSuffix(temp, ".tmp"))` -/
def batchName (batchTime : Int) (temp : Name) : Name :=
  ascii "batch-" ++ zeroPadded 20 batchTime ++ ascii "-" ++ trimSuffix temp (ascii ".tmp") ++
    ascii ".ready"

/-- `filepath.Base` -/
def base (p : Path) : Name := p.getLast?.getD []

/-! ## Listing -/

/-- The chunks of a batch directory, or the first entry that is not one. -/
def batchChunks (batchDir : Path) : List DirEntry → Except SpoolError (List Path)
  | [] => .ok []
  | chunk :: rest =>
    if chunk.isDir || !isChunkName chunk.name then
      .error (.invalidBatchEntry (batchDir ++ [chunk.name]))
    else
      match batchChunks batchDir rest with
      | .ok files => .ok ((batchDir ++ [chunk.name]) :: files)
      | .error e => .error e

/-- `sort.Strings` on paths. -/
def sortFiles (files : List Path) : List Path :=
  files.insertionSort (fun a b => pathString a ≤ pathString b)

/-- The loop of `filesLocked` over the entries of the spool directory. -/
def filesLoop (s : CustomSpool) :
    List DirEntry → List Path → FsProg (Except SpoolError (List Path))
  | [], files => .ret (.ok (sortFiles files))
  | entry :: rest, files =>
    if !entry.isDir && isLegacyName entry.name then
      filesLoop s rest (files ++ [s.dir ++ [entry.name]])
    else if entry.isDir && isBatchName entry.name then do
      let chunks ← Os.readDir (s.dir ++ [entry.name])
      match chunks with
      | .error e => .ret (.error (.os e))
      | .ok [] => .ret (.error (.committedBatchEmpty (s.dir ++ [entry.name])))
      | .ok chunks =>
        match batchChunks (s.dir ++ [entry.name]) chunks with
        | .error e => .ret (.error e)
        | .ok batch => filesLoop s rest (files ++ batch)
    else filesLoop s rest files

def filesLocked (s : CustomSpool) : FsProg (Except SpoolError (List Path)) := do
  let entries ← Os.readDir s.dir
  match entries with
  | .error e => .ret (.error (.os e))
  | .ok entries => filesLoop s entries []

def oldest (s : CustomSpool) : FsProg (Except SpoolError (Option Path)) := do
  let files ← filesLocked s
  match files with
  | .error e => .ret (.error e)
  | .ok files => .ret (.ok files.head?)

/-! ## Statistics -/

structure SpoolStats where
  files : Nat
  bytes : Int
  oldestAge : Int
  deriving DecidableEq

/-- The loop of `statsLocked`: the bytes so far and the oldest modification time so far. -/
def statsLoop : List Path → Int → Option Int → FsProg (Except SpoolError (Int × Option Int))
  | [], bytes, oldest => .ret (.ok (bytes, oldest))
  | file :: rest, bytes, oldest => do
    let info ← Os.stat file
    match info with
    | .error e => .ret (.error (.os e))
    | .ok info =>
      let oldest' := match oldest with
        | none => info.mtime
        | some t => if info.mtime < t then info.mtime else t
      statsLoop rest (bytes + info.size) (some oldest')

def statsLocked (s : CustomSpool) (now : Int) : FsProg (Except SpoolError SpoolStats) := do
  let files ← filesLocked s
  match files with
  | .error e => .ret (.error e)
  | .ok files => do
    let sums ← statsLoop files 0 none
    match sums with
    | .error e => .ret (.error e)
    | .ok (bytes, oldest) =>
      let oldestAge := match oldest with
        | none => 0
        | some t => if now - t < 0 then 0 else now - t
      .ret (.ok ⟨files.length, bytes, oldestAge⟩)

/-! ## Writing a batch -/

/-- `os.MkdirTemp(dir, ".batch-*.tmp")`: a name that is taken is answered by the next one. -/
def mkdirTemp (dir : Path) : List Bytes → FsProg (Except Errno Name)
  | [] => .ret (.error .exist)
  | rand :: rands => do
    let r ← Os.mkdir (dir ++ [tempName rand])
    match r with
    | .ok _ => .ret (.ok (tempName rand))
    | .error .exist => mkdirTemp dir rands
    | .error e => .ret (.error e)

def cleanupTemp (filePath : Path) : FsProg Unit := do
  let _ ← Os.close filePath
  let _ ← Os.remove filePath
  .ret ()

/-- One round of the chunk loop of `PutBatch`, up to the rollback. -/
def writeChunk (filePath : Path) (payload : Bytes) : FsProg (Except Errno Unit) := do
  let tmp ← Os.create filePath
  match tmp with
  | .error e => .ret (.error e)
  | .ok _ => do
    let written ← Os.write filePath payload
    match written with
    | .error e => do
      cleanupTemp filePath
      .ret (.error e)
    | .ok _ => do
      let synced ← Os.sync filePath
      match synced with
      | .error e => do
        cleanupTemp filePath
        .ret (.error e)
      | .ok _ => do
        let closed ← Os.close filePath
        match closed with
        | .error e => do
          cleanupTemp filePath
          .ret (.error e)
        | .ok _ => .ret (.ok ())

/-- The chunk loop of `PutBatch`. -/
def writeChunks (tempDir : Path) : Nat → List Bytes → FsProg (Except Errno Unit)
  | _, [] => .ret (.ok ())
  | i, payload :: rest => do
    let r ← writeChunk (tempDir ++ [chunkName i]) payload
    match r with
    | .error e => .ret (.error e)
    | .ok _ => writeChunks tempDir (i + 1) rest

/-- Open, sync and close the directory of a batch. The error of the last close is ignored. -/
def syncBatch (tempDir : Path) : FsProg (Except Errno Unit) := do
  let handle ← Os.openFile tempDir
  match handle with
  | .error e => .ret (.error e)
  | .ok _ => do
    let synced ← Os.sync tempDir
    let _ ← Os.close tempDir
    match synced with
    | .error e => .ret (.error e)
    | .ok _ => .ret (.ok ())

/-- Sync the spool directory. Every error is ignored. -/
def syncDir (dir : Path) : FsProg Unit := do
  let handle ← Os.openFile dir
  match handle with
  | .error _ => .ret ()
  | .ok _ => do
    let _ ← Os.sync dir
    let _ ← Os.close dir
    .ret ()

/-- What `PutBatch` does between making the temporary directory and renaming it. -/
def commitBatch (tempDir batchDir : Path) (payloads : List Bytes) :
    FsProg (Except Errno Unit) := do
  let written ← writeChunks tempDir 0 payloads
  match written with
  | .error e => .ret (.error e)
  | .ok _ => do
    let synced ← syncBatch tempDir
    match synced with
    | .error e => .ret (.error e)
    | .ok _ => Os.rename tempDir batchDir

def createdFiles (batchDir : Path) (payloads : List Bytes) : List Path :=
  (List.range payloads.length).map (fun i => batchDir ++ [chunkName i])

def putBatch (s : CustomSpool) (payloads : List Bytes) (now : Int) (rands : List Bytes) :
    FsProg (Except SpoolError (List Path)) :=
  if payloads = [] then .ret (.error .batchEmpty)
  else if [] ∈ payloads then .ret (.error .payloadEmpty)
  else do
    let stats ← statsLocked s now
    match stats with
    | .error e => .ret (.error e)
    | .ok stats =>
      let required : Int := (payloads.map List.length).sum
      if required > s.maxBytes ∨ stats.bytes > s.maxBytes - required then .ret (.error .full)
      else do
        let temp ← mkdirTemp s.dir rands
        match temp with
        | .error e => .ret (.error (.os e))
        | .ok temp => do
          let committed ← commitBatch (s.dir ++ [temp]) (s.dir ++ [batchName now temp]) payloads
          match committed with
          | .error e => do
            -- the closure `rollback`
            let _ ← removeAll (s.dir ++ [temp])
            .ret (.error (.os e))
          | .ok _ => do
            syncDir s.dir
            .ret (.ok (createdFiles (s.dir ++ [batchName now temp]) payloads))

def put (s : CustomSpool) (payload : Bytes) (now : Int) (rands : List Bytes) :
    FsProg (Except SpoolError (Option Path)) := do
  let files ← putBatch s [payload] now rands
  match files with
  | .error e => .ret (.error e)
  | .ok files => .ret (.ok files.head?)

/-! ## Taking a payload out -/

/-- `dir/custom-*.ready` or `dir/batch-*.ready/chunk-*.ready`. -/
def isReadyPath (s : CustomSpool) (path : Path) : Bool :=
  let parent := path.dropLast
  let legacy := decide (parent = s.dir) && isLegacyName (base path)
  let batched := decide (parent.dropLast = s.dir) && hasPrefix (base parent) (ascii "batch-") &&
    hasSuffix (pathString parent) (ascii ".ready") && isChunkName (base path)
  legacy || batched

/-- The test of `filepath.Rel` is left out: a path that it refuses is not of either form. -/
def validReadyPath (s : CustomSpool) (file : Path) : Except SpoolError Path :=
  if isReadyPath s file then .ok file else .error (.notSpoolFile file)

/-- What `Remove`, `Quarantine` and `Maintain` do about the directory of a file that is gone. -/
def dropEmptyBatch (s : CustomSpool) (path : Path) : FsProg Unit :=
  if path.dropLast = s.dir then .ret ()
  else do
    let entries ← Os.readDir path.dropLast
    match entries with
    | .ok [] => do
      let _ ← Os.remove path.dropLast
      .ret ()
    | _ => .ret ()

def remove (s : CustomSpool) (file : Path) : FsProg (Except SpoolError Unit) :=
  match validReadyPath s file with
  | .error e => .ret (.error e)
  | .ok path => do
    let r ← Os.remove path
    match r with
    | .error e => .ret (.error (.os e))
    | .ok _ => do
      dropEmptyBatch s path
      .ret (.ok ())

/-- The bytes that `safeReason` keeps. -/
def isReasonByte (b : UInt8) : Bool :=
  (97 ≤ b && b ≤ 122) || (48 ≤ b && b ≤ 57) || b = 45 || b = 95

def safeReason (reason : Bytes) : Bytes :=
  let kept := ((trimSpace (runes reason)).filterMap lowerAscii).filter isReasonByte
  if kept = [] then ascii "unknown" else kept

/-- `strings.TrimSuffix(filepath.Base(path), ".ready") + "." + reason + ".failed"` -/
def destinationName (path : Path) (reason : Bytes) : Name :=
  trimSuffix (base path) (ascii ".ready") ++ ascii "." ++ safeReason reason ++ ascii ".failed"

def destination (s : CustomSpool) (path : Path) (reason : Bytes) : Path :=
  s.quarantineDir ++ [destinationName path reason]

def quarantine (s : CustomSpool) (file : Path) (reason : Bytes) :
    FsProg (Except SpoolError Path) :=
  match validReadyPath s file with
  | .error e => .ret (.error e)
  | .ok path => do
    let r ← Os.rename path (destination s path reason)
    match r with
    | .error e => .ret (.error (.os e))
    | .ok _ => do
      dropEmptyBatch s path
      .ret (.ok (destination s path reason))

/-! ## Maintenance -/

structure MaintenanceResult where
  expiredReadyFiles : Nat
  removedQuarantine : Nat
  deriving DecidableEq

/-- The first loop of `Maintain`: how many files it removed, and the error that stopped it. -/
def expireLoop (s : CustomSpool) (cutoff : Int) :
    List Path → Nat → FsProg (Nat × Option SpoolError)
  | [], expired => .ret (expired, none)
  | file :: rest, expired => do
    let info ← Os.stat file
    match info with
    | .error e => .ret (expired, some (.os e))
    | .ok info =>
      if info.mtime < cutoff then do
        let r ← Os.remove file
        match r with
        | .error e => .ret (expired, some (.os e))
        | .ok _ => do
          dropEmptyBatch s file
          expireLoop s cutoff rest (expired + 1)
      else expireLoop s cutoff rest expired

structure QuarantineEntry where
  path : Path
  size : Nat
  mod : Int
  deriving DecidableEq

/-- The sum of the sizes of the regular files at or under a path. -/
def treeSize (path : Path) : FsProg (Except Errno Nat) := do
  let nodes ← Os.walk path
  match nodes with
  | .error e => .ret (.error e)
  | .ok nodes => .ret (.ok (nodes.map (fun n => n.2.size)).sum)

/-- The second loop of `Maintain`. -/
def itemsLoop (s : CustomSpool) :
    List DirEntry → List QuarantineEntry → FsProg (Except SpoolError (List QuarantineEntry))
  | [], items => .ret (.ok items)
  | entry :: rest, items => do
    let size ← treeSize (s.quarantineDir ++ [entry.name])
    match size with
    | .error e => .ret (.error (.os e))
    | .ok size => do
      let info ← Os.stat (s.quarantineDir ++ [entry.name])
      match info with
      | .error e => .ret (.error (.os e))
      | .ok info =>
        itemsLoop s rest (items ++ [⟨s.quarantineDir ++ [entry.name], size, info.mtime⟩])

/-- The third loop of `Maintain`. -/
def evictLoop (s : CustomSpool) :
    List QuarantineEntry → Int → Nat → FsProg (Nat × Option SpoolError)
  | [], _, removed => .ret (removed, none)
  | item :: rest, total, removed =>
    if total ≤ s.maxQuarantineBytes then .ret (removed, none)
    else do
      let r ← removeAll item.path
      match r with
      | .error e => .ret (removed, some (.os e))
      | .ok _ => evictLoop s rest (total - item.size) (removed + 1)

/-- `Maintain`, given how `sort.Slice` orders the quarantine. The result so far comes back with the
error. -/
def maintainIn (order : List QuarantineEntry → List QuarantineEntry) (s : CustomSpool)
    (now : Int) : FsProg (MaintenanceResult × Option SpoolError) := do
  let files ← filesLocked s
  match files with
  | .error e => .ret (⟨0, 0⟩, some e)
  | .ok files => do
    let (expired, err) ← expireLoop s (now - s.maxAge) files 0
    match err with
    | some e => .ret (⟨expired, 0⟩, some e)
    | none => do
      let entries ← Os.readDir s.quarantineDir
      match entries with
      | .error e => .ret (⟨expired, 0⟩, some (.os e))
      | .ok entries => do
        let items ← itemsLoop s entries []
        match items with
        | .error e => .ret (⟨expired, 0⟩, some e)
        | .ok items => do
          let total : Int := (items.map QuarantineEntry.size).sum
          let (removed, err) ← evictLoop s (order items) total 0
          .ret (⟨expired, removed⟩, err)

/-- `Maintain`. Entries with the same time keep their order. -/
def maintain (s : CustomSpool) (now : Int) : FsProg (MaintenanceResult × Option SpoolError) :=
  maintainIn (fun items => items.insertionSort (fun a b => a.mod ≤ b.mod)) s now

/-! ## Opening -/

def allChunks (chunks : List DirEntry) : Bool :=
  chunks.all (fun chunk => !chunk.isDir && isChunkName chunk.name)

/-- The loop of `recoverStartup`. -/
def recoverLoop (s : CustomSpool) : List DirEntry → FsProg (Except SpoolError Unit)
  | [] => .ret (.ok ())
  | entry :: rest =>
    if entry.isDir && isTempName entry.name then do
      let r ← removeAll (s.dir ++ [entry.name])
      match r with
      | .error e => .ret (.error (.removeAbandoned entry.name e))
      | .ok _ => recoverLoop s rest
    else if entry.isDir && isBatchName entry.name then do
      let chunks ← Os.readDir (s.dir ++ [entry.name])
      let valid := match chunks with
        | .ok chunks => !chunks.isEmpty && allChunks chunks
        | .error _ => false
      if valid then recoverLoop s rest
      else do
        let r ← Os.rename (s.dir ++ [entry.name])
          (s.quarantineDir ++ [entry.name ++ ascii ".corrupt"])
        match r with
        | .error e => .ret (.error (.quarantineCorrupt entry.name e))
        | .ok _ => recoverLoop s rest
    else recoverLoop s rest

def recoverStartup (s : CustomSpool) : FsProg (Except SpoolError Unit) := do
  let entries ← Os.readDir s.dir
  match entries with
  | .error e => .ret (.error (.os e))
  | .ok entries => recoverLoop s entries

/-- What `OpenCustomSpoolWithPolicy` does once its arguments are checked. -/
def openChecked (s : CustomSpool) : FsProg (Except SpoolError CustomSpool) := do
  let made ← mkdirAll s.quarantineDir
  match made with
  | .error e => .ret (.error (.os e))
  | .ok _ => do
    let recovered ← recoverStartup s
    match recovered with
    | .error e => .ret (.error e)
    | .ok _ => .ret (.ok s)

end CustomSpool

def openCustomSpoolWithPolicy (dir : Path) (maxBytes maxAge maxQuarantineBytes : Int) :
    FsProg (Except SpoolError CustomSpool) :=
  if hdir : dir = [] then .ret (.error .directoryEmpty)
  else if hbytes : maxBytes ≤ 0 then .ret (.error .maxBytesNotPositive)
  else if hkeep : maxAge ≤ 0 ∨ maxQuarantineBytes ≤ 0 then .ret (.error .retentionNotPositive)
  else
    CustomSpool.openChecked
      ⟨dir, maxBytes, maxAge, maxQuarantineBytes, hdir, by omega, by omega, by omega⟩

end Dogstatsd

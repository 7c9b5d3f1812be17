import NodeAgent.Infra.Sequences
import NodeAgent.Prom.RemoteWriter

/-!
# Scraping and sending side by side

A scrape writes to the spool while the send loop takes files out of it. The two share the directory
and no lock, so between any two calls of the one the other may make calls. Every call succeeds,
unless the file is gone.

* `Position.next_prog` — the steps of the writer make the calls of `writeToSpool`
* `Sender.next_prog` — the steps of the sender make the calls of a round of `sendLoop`
-/

namespace Prom

open Infra Prog

/-! ## The writer -/

/-- A call of `writeToSpool`. -/
structure WriteCall where
  agent : Agent
  timestamp : Int
  payload : Bytes
  rands : List Nat

namespace WriteCall

def target (w : WriteCall) : Path := spoolPath w.agent w.timestamp

def temp (w : WriteCall) (rand : Nat) : Path := w.agent.spoolDir ++ [tempName w.timestamp rand]

def prog (w : WriteCall) : FsProg (Except Errno Unit) :=
  writeToSpool w.agent w.timestamp w.payload w.rands

end WriteCall

/-- Where a call of `writeToSpool` is: the file system call that it makes next, with the values
that it holds. -/
inductive Position where
  | listing
  | sizing (files : List Path) (f : Path) (rest : List Path) (totalSize : Int)
  | truncating (oldest : Path)
  | creating (rand : Nat) (rands : List Nat)
  | writing (temp : Path)
  | closing (temp : Path)
  | moving (temp : Path)
  -- the deferred function
  | closingAgain (temp : Path) (result : Except Errno Unit)
  | removing (temp : Path) (result : Except Errno Unit)
  | returned (result : Except Errno Unit)

/-- The call of `os.CreateTemp` with these numbers to come. -/
def Position.create : List Nat → Position
  | [] => .returned (.error .exist)
  | rand :: rands => .creating rand rands

/-- After an error the deferred function comes next. -/
def Position.unlessError (temp : Path) (pos : Position) : Except Errno Unit → Position
  | .error e => .closingAgain temp (.error e)
  | .ok _ => pos

namespace WriteCall

variable (w : WriteCall)

/-- Once the size of `f` is added and `rest` is to come. -/
def sized (files : List Path) : List Path → Int → Position
  | [], totalSize =>
    if totalSize > w.agent.maxSpoolSize then .truncating (files.headD []) else .create w.rands
  | f :: rest, totalSize => .sizing files f rest totalSize

def listed : Except Errno (List DirEntry) → Position
  | .error e => .returned (.error e)
  | .ok entities =>
    let files := selectFiles w.agent.spoolDir entities
    if files.length ≤ 1 then .create w.rands else w.sized files files 0

def statted (files rest : List Path) (totalSize : Int) : Except Errno Node → Position
  | .error e => .returned (.error e)
  | .ok st => w.sized files rest (totalSize + st.size)

def truncated : Except Errno Unit → Position
  | .error e => .returned (.error e)
  | .ok _ => .create w.rands

def created (rand : Nat) (rands : List Nat) : Except Errno Unit → Position
  | .ok _ => .writing (w.temp rand)
  | .error .exist => .create rands
  | .error e => .returned (.error e)

end WriteCall

namespace Position

variable (w : WriteCall)

def prog : Position → FsProg (Except Errno Unit)
  | .listing => w.prog
  | .sizing files f rest totalSize => do
    let truncated ← (statFiles (f :: rest) totalSize >>= dropOldest w.agent files)
    match truncated with
    | .error e => .ret (.error e)
    | .ok _ => store w.agent w.timestamp w.payload w.rands
  | .truncating oldest => do
    let truncated ← Os.remove oldest
    match truncated with
    | .error e => .ret (.error e)
    | .ok _ => store w.agent w.timestamp w.payload w.rands
  | .creating rand rands => store w.agent w.timestamp w.payload (rand :: rands)
  | .writing temp => place temp w.target w.payload >>= discard temp
  | .closing temp => do
    let closed ← Os.close temp
    match closed with
    | .error e => discard temp (.error e)
    | .ok _ => Os.rename temp w.target >>= discard temp
  | .moving temp => Os.rename temp w.target >>= discard temp
  | .closingAgain temp result => discard temp result
  | .removing temp result => do
    let _ ← Os.remove temp
    .ret result
  | .returned result => .ret result

def next (c : Choice) (d : Disk) : Position → Position × Disk
  | .listing =>
    let out := fsStep c (.readDir w.agent.spoolDir) d
    (w.listed out.1, out.2)
  | .sizing files f rest totalSize =>
    let out := fsStep c (.stat f) d
    (w.statted files rest totalSize out.1, out.2)
  | .truncating oldest =>
    let out := fsStep c (.remove oldest) d
    (w.truncated out.1, out.2)
  | .creating rand rands =>
    let out := fsStep c (.create (w.temp rand)) d
    (w.created rand rands out.1, out.2)
  | .writing temp =>
    let out := fsStep c (.write temp w.payload) d
    (.unlessError temp (.closing temp) out.1, out.2)
  | .closing temp =>
    let out := fsStep c (.close temp) d
    (.unlessError temp (.moving temp) out.1, out.2)
  | .moving temp =>
    let out := fsStep c (.rename temp w.target) d
    (.closingAgain temp out.1, out.2)
  | .closingAgain temp result => (.removing temp result, (fsStep c (.close temp) d).2)
  | .removing temp result => (.returned result, (fsStep c (.remove temp) d).2)
  | .returned result => (.returned result, d)

variable {w}

theorem prog_create (rands : List Nat) :
    (create rands).prog w = store w.agent w.timestamp w.payload rands := by
  cases rands with
  | nil => rfl
  | cons rand rands => rfl

theorem prog_sized (files rest : List Path) (totalSize : Int) :
    (w.sized files rest totalSize).prog w =
      (statFiles rest totalSize >>= dropOldest w.agent files) >>= fun truncated =>
        match truncated with
        | .error e => .ret (.error e)
        | .ok _ => store w.agent w.timestamp w.payload w.rands := by
  cases rest with
  | cons f rest => rfl
  | nil =>
    show (w.sized files [] totalSize).prog w = dropOldest w.agent files (.ok totalSize) >>= _
    simp only [WriteCall.sized, dropOldest]
    split
    · rfl
    · exact prog_create w.rands

theorem prog_listing : listing.prog w =
    .call (.readDir w.agent.spoolDir) fun r => (w.listed r).prog w := by
  refine congrArg (Prog.call _) (funext fun r => ?_)
  cases r with
  | error e => rfl
  | ok entities =>
    show (if _ then ret _ else _) >>= _ = (if _ then _ else _ : Position).prog w
    split
    · exact (prog_create w.rands).symm
    · exact (prog_sized _ _ 0).symm

theorem prog_sizing (files rest : List Path) (f : Path) (totalSize : Int) :
    (sizing files f rest totalSize).prog w =
      .call (.stat f) fun r => (w.statted files rest totalSize r).prog w := by
  refine congrArg (Prog.call _) (funext fun r => ?_)
  cases r with
  | error e => rfl
  | ok st => exact (prog_sized files rest _).symm

theorem prog_truncating (oldest : Path) : (truncating oldest).prog w =
    .call (.remove oldest) fun r => (w.truncated r).prog w := by
  refine congrArg (Prog.call _) (funext fun r => ?_)
  cases r with
  | error e => rfl
  | ok _ => exact (prog_create w.rands).symm

theorem prog_creating (rand : Nat) (rands : List Nat) : (creating rand rands).prog w =
    .call (.create (w.temp rand)) fun r => (w.created rand rands r).prog w := by
  refine congrArg (Prog.call _) (funext fun r => ?_)
  cases r with
  | ok _ => rfl
  | error e =>
    cases e with
    | exist => exact (prog_create rands).symm
    | _ => rfl

theorem prog_writing (temp : Path) : (writing temp).prog w =
    .call (.write temp w.payload) fun r => (unlessError temp (.closing temp) r).prog w := by
  refine congrArg (Prog.call _) (funext fun r => ?_)
  cases r with
  | error e => rfl
  | ok _ =>
    refine congrArg (Prog.call _) (funext fun r => ?_)
    cases r with
    | error e => rfl
    | ok _ => rfl

theorem prog_closing (temp : Path) : (closing temp).prog w =
    .call (.close temp) fun r => (unlessError temp (.moving temp) r).prog w := by
  refine congrArg (Prog.call _) (funext fun r => ?_)
  cases r with
  | error e => rfl
  | ok _ => rfl

/-- **The positions make the calls of `writeToSpool`.** -/
theorem next_prog (c : Choice) (d : Disk) (pos : Position) :
    (pos.prog w).advance fsStep c d = ((pos.next w c d).1.prog w, (pos.next w c d).2) := by
  cases pos with
  | listing => rw [prog_listing]; rfl
  | sizing files f rest totalSize => rw [prog_sizing]; rfl
  | truncating oldest => rw [prog_truncating]; rfl
  | creating rand rands => rw [prog_creating]; rfl
  | writing temp => rw [prog_writing]; rfl
  | closing temp => rw [prog_closing]; rfl
  | moving _ | closingAgain _ _ | removing _ _ | returned _ => rfl

end Position

/-! ## The send loop -/

/-- Where the send loop is. -/
inductive Sender where
  -- about to list the spool
  | idle
  -- about to open the file and post it
  | chosen (f : Path)
  -- about to remove the file, which was accepted
  | posted (f : Path)
  deriving DecidableEq

namespace Sender

def listed (a : Agent) : Except Errno (List DirEntry) → Sender
  | .error _ => .idle
  | .ok entities =>
    match (selectFiles a.spoolDir entities).head? with
    | none => .idle
    | some f => .chosen f

/-- What is sent, if the answer to the post is this. -/
def post (accepted : Bool) (f : Path) : Except Errno Bytes → Sender × List (Path × Bytes)
  | .error _ => (.idle, [])
  | .ok content => if accepted then (.posted f, [(f, content)]) else (.idle, [])

/-- The next call, with the file that was sent by it. -/
def next (a : Agent) (accepted : Bool) (c : Choice) (d : Disk) :
    Sender → Sender × List (Path × Bytes) × Disk
  | .idle =>
    let out := fsStep c (.readDir a.spoolDir) d
    (listed a out.1, [], out.2)
  | .chosen f =>
    let out := fsStep c (.read f) d
    ((post accepted f out.1).1, (post accepted f out.1).2, out.2)
  | .posted f => (.idle, [], (fsStep c (.remove f) d).2)

def prog (a : Agent) (accepted : Bool) : Sender → FsProg Unit
  | .idle => sendRound a accepted
  | .chosen f => sendFile accepted f
  | .posted f => do
    let _ ← Os.remove f
    .ret ()

/-- The send loop is back at its start when a round is over. -/
def rest (a : Agent) (accepted : Bool) : Sender → FsProg Unit
  | .idle => .ret ()
  | s => s.prog a accepted

/-- **The steps make the calls of a round of `sendLoop`.** -/
theorem next_prog (a : Agent) (accepted : Bool) (c : Choice) (d : Disk) (s : Sender) :
    (s.prog a accepted).advance fsStep c d =
      ((s.next a accepted c d).1.rest a accepted, (s.next a accepted c d).2.2) := by
  cases s with
  | idle =>
    have h : Sender.idle.prog a accepted =
        .call (.readDir a.spoolDir) fun r => (listed a r).rest a accepted := by
      refine congrArg (Prog.call _) (funext fun r => ?_)
      cases r with
      | error e => rfl
      | ok entities =>
        cases hhead : (selectFiles a.spoolDir entities).head? with
        | none => simp [Prog.bind, listed, hhead, rest]
        | some f => simp [Prog.bind, listed, hhead, rest, prog]
    rw [h]
    rfl
  | chosen f =>
    have h : (Sender.chosen f).prog a accepted =
        .call (.read f) fun r => (post accepted f r).1.rest a accepted := by
      refine congrArg (Prog.call _) (funext fun r => ?_)
      cases r with
      | error e => rfl
      | ok content => cases accepted <;> rfl
    rw [h]
    rfl
  | posted f => rfl

end Sender

/-! ## Both together -/

/-- A write in progress and the send loop. `sent` says which files were sent so far, with their
contents. -/
structure Sending where
  disk : Disk
  program : FsProg (Except Errno Unit)
  position : Position
  sender : Sender
  sent : List (Path × Bytes)

/-- Who makes a call. No call fails unless the file is gone. -/
inductive Turn where
  | writer (clock : Int)
  | sender (accepted : Bool)

def Turn.isWriter : Turn → Bool
  | .writer _ => true
  | .sender _ => false

namespace Sending

def next (w : WriteCall) (sys : Sending) : Turn → Sending
  | .writer clock =>
    let out := sys.program.advance fsStep (.good clock) sys.disk
    { sys with
      disk := out.2
      program := out.1
      position := (sys.position.next w (.good clock) sys.disk).1 }
  | .sender accepted =>
    let out := sys.sender.next w.agent accepted (.good 0) sys.disk
    { sys with
      disk := out.2.2
      sender := out.1
      sent := sys.sent ++ out.2.1 }

end Sending

def Delivered (w : WriteCall) (t : Tree) (sent : List (Path × Bytes)) : Prop :=
  t.content? w.target = some w.payload ∨ (w.target, w.payload) ∈ sent

/-- The write has still to add the size of `g` or to remove it, or `g` is the new file and it was
not sent. -/
def Position.HarmedBy (w : WriteCall) (t : Tree) (sent : List (Path × Bytes)) (g : Path) :
    Position → Prop
  | .sizing files f rest total =>
    g ∈ f :: rest ∨
      (g = files.headD [] ∧ w.agent.maxSpoolSize < total + totalSize t (f :: rest))
  | .truncating oldest => g = oldest
  | .closingAgain _ result => result = .ok () ∧ g = w.target ∧ (w.target, w.payload) ∉ sent
  | .removing _ result => result = .ok () ∧ g = w.target ∧ (w.target, w.payload) ∉ sent
  | .returned result => result = .ok () ∧ g = w.target ∧ (w.target, w.payload) ∉ sent
  | _ => False

/-- The send loop removes no file that the write needs, and the new file only if it has sent it. -/
def Harmless (w : WriteCall) (sys : Sending) : Turn → Prop
  | .writer _ => True
  | .sender _ =>
    match sys.sender with
    | .posted f => ¬ sys.position.HarmedBy w sys.disk.tree sys.sent f
    | _ => True

end Prom

import NodeAgent.Infra.Dict
import NodeAgent.Infra.Sequences

/-!
# The journal reader (`logs/journald_reader.go`)

One goroutine, `follow`, sends each entry of the journal to the channel of the container whose
cgroup it comes from. It looks the channel up under the lock and sends without it. If the container
is stopped in between, nothing receives from the channel any more, and `follow` waits at its send
for ever.

* `Journal.stale_iff` — a released channel has a subscriber only after a stop for another cgroup
* `Journal.follow_unblocked_iff` — when `follow` never stands at a send on a released channel
* `Journal.blocked_forever` — where it stands at a send to a stopped parser, it stays
-/

namespace Logs

open Infra

structure JournalEntry where
  message : String
  cgroup : String
  priority : String
  timestamp : Nat
  deriving DecidableEq

/-- The level is read off the priority. -/
structure LogEntry where
  timestamp : Nat
  content : String
  priority : String
  deriving DecidableEq

def JournalEntry.logEntry (e : JournalEntry) : LogEntry := ⟨e.timestamp, e.message, e.priority⟩

/-- An unbuffered channel. -/
abbrev Channel := Nat

structure JournaldReader where
  subscribers : Dict String Channel

namespace JournaldReader

def new : JournaldReader := ⟨∅⟩

/-- There is one subscriber for a cgroup at most. -/
def subscribe (r : JournaldReader) (cgroup : String) (ch : Channel) : Option JournaldReader :=
  if cgroup ∈ r.subscribers then none else some ⟨r.subscribers.insert cgroup ch⟩

/-- A cgroup without subscriber is only warned of. -/
def unsubscribe (r : JournaldReader) (cgroup : String) : JournaldReader :=
  if cgroup ∈ r.subscribers then ⟨r.subscribers.erase cgroup⟩ else r

theorem of_subscribe {r r' : JournaldReader} {cgroup : String} {ch : Channel}
    (h : r.subscribe cgroup ch = some r') :
    cgroup ∉ r.subscribers ∧ r'.subscribers = r.subscribers.insert cgroup ch := by
  unfold subscribe at h
  split at h
  · cases h
  · next hnew =>
    cases h
    exact ⟨hnew, rfl⟩

theorem lookup_unsubscribe (r : JournaldReader) (cgroup cg : String) :
    (r.unsubscribe cgroup).subscribers.lookup cg =
      if cg = cgroup then none else r.subscribers.lookup cg := by
  unfold unsubscribe
  split
  · split
    · next heq =>
      subst heq
      exact AList.lookup_erase _ _
    · next hne => exact AList.lookup_erase_ne hne
  · next hnone =>
    split
    · next heq =>
      subst heq
      exact AList.lookup_eq_none.mpr hnone
    · rfl

end JournaldReader

/-! ## The goroutine -/

/-- Where `follow` stands. -/
inductive Follow where
  | reading
  /-- it has read an entry, and is going to look up its channel -/
  | found (e : JournalEntry)
  | sending (ch : Channel) (le : LogEntry)
  | stopped
  deriving DecidableEq

/-- What `Next` and `GetEntry` give. -/
inductive JournalResult where
  | failed
  | nothing
  | entry (e : JournalEntry)

def readEntry : JournalResult → Follow
  | .failed => .stopped
  | .nothing => .reading
  | .entry e => if e.message = "" then .reading else .found e

def JournaldReader.lookupChannel (r : JournaldReader) (e : JournalEntry) : Follow :=
  match r.subscribers.lookup e.cgroup with
  | some ch => .sending ch e.logEntry
  | none => .reading

/-- What has been done to stop the parser of a channel. -/
structure ParserState where
  /-- `Unsubscribe` has returned -/
  released : Bool
  /-- the parser does not receive any more -/
  stopped : Bool
  deriving DecidableEq

/-- The reader, where its goroutine stands, the parsers by channel, and what they have received. -/
structure Journal where
  reader : JournaldReader
  follow : Follow
  parsers : List ParserState
  delivered : List (Channel × LogEntry)

/-- The atomic steps. A container that is stopped unsubscribes the cgroup that it has by then. -/
inductive JournalStep where
  | read (result : JournalResult)
  | look
  | receive
  | subscribe (cgroup : String)
  | unsubscribe (ch : Channel) (cgroup : String)
  | stopParser (ch : Channel)

namespace Journal

/-- `NewJournaldReader` -/
def start : Journal := ⟨.new, .reading, [], []⟩

def released (s : Journal) (ch : Channel) : Bool := (s.parsers[ch]?).any ParserState.released

def receives (s : Journal) (ch : Channel) : Bool := (s.parsers[ch]?).any (fun p => !p.stopped)

/-- A step that cannot be made changes nothing. -/
def step (s : Journal) : JournalStep → Journal
  | .read result =>
    match s.follow with
    | .reading => { s with follow := readEntry result }
    | _ => s
  | .look =>
    match s.follow with
    | .found e => { s with follow := s.reader.lookupChannel e }
    | _ => s
  | .receive =>
    match s.follow with
    | .sending ch le =>
      if s.receives ch then { s with follow := .reading, delivered := s.delivered ++ [(ch, le)] }
      else s
    | _ => s
  | .subscribe cgroup =>
    match s.reader.subscribe cgroup s.parsers.length with
    | some reader => { s with reader, parsers := s.parsers ++ [⟨false, false⟩] }
    | none => s
  | .unsubscribe ch cgroup =>
    { s with
      reader := s.reader.unsubscribe cgroup
      parsers := s.parsers.modify ch (fun p => { p with released := true }) }
  | .stopParser ch =>
    -- `LogParser.Stop` has unsubscribed before
    { s with
      parsers := s.parsers.modify ch
        (fun p => if p.released then { p with stopped := true } else p) }

/-! ## Released channels -/

/-- `follow` does not stand at a send on a channel whose `Unsubscribe` has returned. -/
def Unblocked (s : Journal) : Prop := ∀ ch le, s.follow = .sending ch le → s.released ch = false

/-- A released channel is still the subscriber of the cgroup. -/
def Stale (s : Journal) (cgroup : String) : Prop :=
  ∃ ch, s.reader.subscribers.lookup cgroup = some ch ∧ s.released ch = true

/-- The container of the subscriber is stopped, for another cgroup. -/
def StoppedElsewhere (cgroup : String) (s : Journal) : JournalStep → Prop
  | .unsubscribe ch other => other ≠ cgroup ∧ s.reader.subscribers.lookup cgroup = some ch
  | _ => False

def Unsubscribed (cgroup : String) (_ : Journal) : JournalStep → Prop
  | .unsubscribe _ other => other = cgroup
  | _ => False

/-- The steps have stopped the container that subscribed the cgroup for another one, and have not
unsubscribed the cgroup since. -/
def Abandoned (steps : List JournalStep) (cgroup : String) : Prop :=
  Since step (StoppedElsewhere cgroup) (Unsubscribed cgroup) start steps

/-- No channel is released while `follow` is sending to it, and no entry is looked up whose cgroup
has been abandoned. -/
def Timely (before : List JournalStep) : JournalStep → Prop
  | .look => ∀ e, (before.foldl step start).follow = .found e → ¬ Abandoned before e.cgroup
  | .unsubscribe ch _ => ∀ le, (before.foldl step start).follow ≠ .sending ch le
  | _ => True

structure Valid (s : Journal) : Prop where
  subscribed : ∀ cgroup ch, s.reader.subscribers.lookup cgroup = some ch → ch < s.parsers.length
  sending : ∀ ch le, s.follow = .sending ch le → ch < s.parsers.length

variable {s s' : Journal} {ch : Channel} {le : LogEntry}

theorem valid_start : start.Valid where
  subscribed := fun _ _ h => by cases h
  sending := fun _ _ h => by cases h

theorem unblocked_start : start.Unblocked := fun _ _ h => by cases h

theorem readEntry_ne_sending (result : JournalResult) : readEntry result ≠ .sending ch le := by
  cases result with
  | entry e =>
    simp only [readEntry]
    split <;> exact fun h => by cases h
  | _ => exact fun h => by cases h

theorem lookupChannel_sending {r : JournaldReader} {e : JournalEntry} :
    r.lookupChannel e = .sending ch le ↔
      r.subscribers.lookup e.cgroup = some ch ∧ e.logEntry = le := by
  unfold JournaldReader.lookupChannel
  cases r.subscribers.lookup e.cgroup with
  | none => exact iff_of_false (fun h => by cases h) fun h => by cases h.1
  | some ch' => simp only [Follow.sending.injEq, Option.some.injEq]

theorem Valid.same (h : s.Valid) (hreader : s'.reader = s.reader)
    (hlength : s'.parsers.length = s.parsers.length)
    (hfollow : ∀ ch le, s'.follow = .sending ch le → s.follow = .sending ch le) : s'.Valid := by
  refine ⟨fun cgroup ch hch => ?_, fun ch le hch => ?_⟩
  · rw [hlength]
    exact h.subscribed cgroup ch (hreader ▸ hch)
  · rw [hlength]
    exact h.sending ch le (hfollow ch le hch)

theorem Valid.step (h : s.Valid) (next : JournalStep) : (s.step next).Valid := by
  cases next with
  | read result =>
    simp only [Journal.step]
    split
    · exact h.same rfl rfl fun ch le heq => absurd heq (readEntry_ne_sending result)
    · exact h
  | look =>
    simp only [Journal.step]
    split
    · refine ⟨h.subscribed, fun ch le heq => ?_⟩
      exact h.subscribed _ ch (lookupChannel_sending.mp heq).1
    · exact h
  | receive =>
    simp only [Journal.step]
    split
    · split
      · exact h.same rfl rfl fun ch le heq => by cases heq
      · exact h
    · exact h
  | subscribe cgroup =>
    simp only [Journal.step]
    split
    · next reader hreader =>
      have hlength : (s.parsers ++ [(⟨false, false⟩ : ParserState)]).length =
          s.parsers.length + 1 := List.length_append
      obtain ⟨_, hsubscribers⟩ := JournaldReader.of_subscribe hreader
      refine ⟨fun cg ch hch => ?_, fun ch le heq => ?_⟩
      · simp only [hlength]
        simp only [hsubscribers, Dict.lookup_insert_eq] at hch
        split at hch
        · cases hch
          exact Nat.lt_succ_self _
        · exact Nat.lt_succ_of_lt (h.subscribed cg ch hch)
      · simp only [hlength]
        exact Nat.lt_succ_of_lt (h.sending ch le heq)
    · exact h
  | unsubscribe ch cgroup =>
    refine ⟨fun cg j hj => ?_, fun j le heq => ?_⟩
    · simp only [Journal.step, List.length_modify]
      simp only [Journal.step, JournaldReader.lookup_unsubscribe] at hj
      split at hj
      · cases hj
      · exact h.subscribed cg j hj
    · simp only [Journal.step, List.length_modify]
      exact h.sending j le heq
  | stopParser ch => exact h.same rfl (List.length_modify _ _ _) fun _ _ heq => heq

theorem released_unsubscribe_self (cgroup : String) (hch : ch < s.parsers.length) :
    (s.step (.unsubscribe ch cgroup)).released ch = true := by
  simp only [released, Journal.step, List.getElem?_modify, List.getElem?_eq_getElem hch]
  simp

theorem released_unsubscribe_ne (cgroup : String) {j : Channel} (hne : j ≠ ch) :
    (s.step (.unsubscribe ch cgroup)).released j = s.released j := by
  simp only [released, Journal.step, List.getElem?_modify, if_neg (Ne.symm hne)]
  cases s.parsers[j]? <;> rfl

theorem Unblocked.same (h : s.Unblocked) (hfollow : s'.follow = s.follow)
    (hreleased : ∀ ch, s'.released ch = s.released ch) : s'.Unblocked := by
  intro ch le heq
  rw [hreleased]
  exact h ch le (hfollow ▸ heq)

theorem released_subscribe (reader : JournaldReader) (j : Channel) :
    released { s with reader, parsers := s.parsers ++ [⟨false, false⟩] } j = s.released j := by
  unfold released
  rcases Nat.lt_trichotomy j s.parsers.length with hj | hj | hj
  · rw [List.getElem?_append_left hj]
  · rw [hj, List.getElem?_concat_length, List.getElem?_eq_none (Nat.le_refl _)]
    rfl
  · have hlength : (s.parsers ++ [(⟨false, false⟩ : ParserState)]).length ≤ j := by
      rw [List.length_append]
      exact hj
    rw [List.getElem?_eq_none hlength, List.getElem?_eq_none (Nat.le_of_lt hj)]

theorem released_stopParser (j : Channel) :
    (s.step (.stopParser ch)).released j = s.released j := by
  simp only [released, Journal.step, List.getElem?_modify]
  cases s.parsers[j]? with
  | none => rfl
  | some p =>
    simp only [Option.map_eq_map, Option.map_some, Option.any_some]
    split
    · split <;> rfl
    · rfl

/-! ### Abandoned cgroups -/

theorem stale_congr (hreader : s'.reader = s.reader)
    (hreleased : ∀ ch, s'.released ch = s.released ch) (cgroup : String) :
    s'.Stale cgroup ↔ s.Stale cgroup := by
  simp only [Stale, hreader, hreleased]

theorem stale_subscribe {reader : JournaldReader} {other : String}
    (hreader : s.reader.subscribe other s.parsers.length = some reader) (cgroup : String) :
    Stale { s with reader, parsers := s.parsers ++ [⟨false, false⟩] } cgroup ↔ s.Stale cgroup := by
  obtain ⟨hnew, hsubscribers⟩ := JournaldReader.of_subscribe hreader
  simp only [Stale, released_subscribe, hsubscribers, Dict.lookup_insert_eq]
  split
  · next heq =>
    -- the new channel is not released
    refine iff_of_false ?_ ?_
    · rintro ⟨ch, hch, hreleased⟩
      cases hch
      rw [released, List.getElem?_eq_none (Nat.le_refl _)] at hreleased
      cases hreleased
    · rintro ⟨ch, hch, -⟩
      rw [heq, AList.lookup_eq_none.mpr hnew] at hch
      cases hch
  · rfl

theorem stale_unsubscribe (hv : s.Valid) (ch : Channel) (other cgroup : String) :
    (s.step (.unsubscribe ch other)).Stale cgroup ↔
      other ≠ cgroup ∧ (s.reader.subscribers.lookup cgroup = some ch ∨ s.Stale cgroup) := by
  have hlookup : (s.step (.unsubscribe ch other)).reader.subscribers.lookup cgroup = _ :=
    JournaldReader.lookup_unsubscribe s.reader other cgroup
  rw [Stale, hlookup]
  by_cases heq : cgroup = other
  · rw [if_pos heq]
    exact iff_of_false nofun fun h => h.1 heq.symm
  · rw [if_neg heq, and_iff_right (Ne.symm heq)]
    constructor
    · rintro ⟨j, hj, hreleased⟩
      by_cases hne : j = ch
      · exact .inl (hne ▸ hj)
      · exact .inr ⟨j, hj, (released_unsubscribe_ne other hne).symm.trans hreleased⟩
    · rintro (hch | ⟨j, hj, hreleased⟩)
      · exact ⟨ch, hch, released_unsubscribe_self other (hv.subscribed cgroup ch hch)⟩
      · refine ⟨j, hj, ?_⟩
        by_cases hne : j = ch
        · exact hne ▸ released_unsubscribe_self other (hne ▸ hv.subscribed cgroup j hj)
        · exact (released_unsubscribe_ne other hne).trans hreleased

/-- **One step makes a cgroup stale if and only if it stops its subscriber for another one.** -/
theorem stale_step (hv : s.Valid) (cgroup : String) (next : JournalStep) :
    (s.step next).Stale cgroup ↔
      StoppedElsewhere cgroup s next ∨ s.Stale cgroup ∧ ¬ Unsubscribed cgroup s next := by
  have hquiet : ((s.step next).Stale cgroup ↔ s.Stale cgroup) →
      ((s.step next).Stale cgroup ↔ False ∨ s.Stale cgroup ∧ ¬ False) := fun h => by
    rw [h, false_or, not_false_eq_true, and_true]
  cases next with
  | read result =>
    refine hquiet (stale_congr ?_ (fun ch => ?_) cgroup) <;>
    · simp only [Journal.step]
      split <;> rfl
  | look =>
    refine hquiet (stale_congr ?_ (fun ch => ?_) cgroup) <;>
    · simp only [Journal.step]
      split <;> rfl
  | receive =>
    refine hquiet (stale_congr ?_ (fun ch => ?_) cgroup) <;>
    · simp only [Journal.step]
      split
      · split <;> rfl
      · rfl
  | subscribe other =>
    refine hquiet ?_
    simp only [Journal.step]
    split
    · next reader hreader => exact stale_subscribe hreader cgroup
    · rfl
  | unsubscribe ch other =>
    rw [stale_unsubscribe hv, and_or_left, and_comm (a := other ≠ cgroup) (b := s.Stale cgroup)]
    rfl
  | stopParser ch =>
    exact hquiet (stale_congr (s := s) (by rfl) released_stopParser cgroup)

/-- **A released channel is still a subscriber exactly after a stop for another cgroup.** -/
theorem stale_iff (cgroup : String) (steps : List JournalStep) :
    (steps.foldl step start).Stale cgroup ↔ Abandoned steps cgroup := by
  have hvalid : ∀ steps : List JournalStep, (steps.foldl step start).Valid := fun steps =>
    List.foldlRecOn steps _ valid_start fun _ h next _ => h.step next
  induction steps using List.reverseRecOn with
  | nil => exact iff_of_false (fun ⟨_, h, _⟩ => by cases h) id
  | append_singleton steps next ih =>
    rw [Abandoned, since_concat, List.foldl_concat, stale_step (hvalid steps)]
    exact or_congr_right (and_congr_left' ih)

/-! ### Runs -/

/-- What a step must meet in the state it finds. -/
def Safe (s : Journal) : JournalStep → Prop
  | .look => ∀ e, s.follow = .found e → ¬ s.Stale e.cgroup
  | .unsubscribe ch _ => ∀ le, s.follow ≠ .sending ch le
  | _ => True

/-- **One step blocks the reader if and only if it is not safe.** -/
theorem unblocked_step_iff (hv : s.Valid) (h : s.Unblocked) (next : JournalStep) :
    (s.step next).Unblocked ↔ s.Safe next := by
  cases next with
  | read result =>
    refine iff_of_true ?_ trivial
    simp only [Journal.step]
    split
    · exact fun ch le heq => absurd heq (readEntry_ne_sending result)
    · exact h
  | look =>
    simp only [Journal.step]
    split
    · next e hfound =>
      constructor
      · rintro hnext e' hfound' ⟨ch, hch, hreleased⟩
        cases hfound.symm.trans hfound'
        have hnot : s.released ch = false :=
          hnext ch e.logEntry (lookupChannel_sending.mpr ⟨hch, rfl⟩)
        rw [hnot] at hreleased
        cases hreleased
      · intro hsafe ch le heq
        by_contra hreleased
        exact hsafe e hfound
          ⟨ch, (lookupChannel_sending.mp heq).1, Bool.not_eq_false _ ▸ hreleased⟩
    · next hother => exact iff_of_true h fun e hfound => absurd hfound (hother e)
  | receive =>
    refine iff_of_true ?_ trivial
    simp only [Journal.step]
    split
    · split
      · exact fun ch le heq => by cases heq
      · exact h
    · exact h
  | subscribe cgroup =>
    refine iff_of_true ?_ trivial
    simp only [Journal.step]
    split
    · next reader _ => exact h.same rfl (released_subscribe reader)
    · exact h
  | unsubscribe ch cgroup =>
    constructor
    · intro hnext le heq
      have hnot := hnext ch le heq
      rw [released_unsubscribe_self cgroup (hv.sending ch le heq)] at hnot
      cases hnot
    · intro hsafe j le heq
      have hne : j ≠ ch := fun hj => hsafe le (hj ▸ heq)
      rw [released_unsubscribe_ne cgroup hne]
      exact h j le heq
  | stopParser ch => exact iff_of_true (h.same rfl fun _ => released_stopParser _) trivial

theorem safe_iff_timely (before : List JournalStep) (next : JournalStep) :
    (before.foldl step start).Safe next ↔ Timely before next := by
  cases next with
  | look => exact forall_congr' fun e => imp_congr_right fun _ => not_congr (stale_iff _ before)
  | _ => exact Iff.rfl

/-- **For every schedule, `follow` never stands at a send on a released channel if and only if no
channel is released while it is sending to it, and no entry is looked up whose cgroup was subscribed
by a container that has been stopped for another one.** -/
theorem follow_unblocked_iff (steps : List JournalStep) :
    EveryState step Unblocked start steps ↔
      ∀ before next rest, steps = before ++ next :: rest → Timely before next := by
  have hkeep : ∀ (s : Journal) next, s.Valid → (s.step next).Valid := fun _ next h => h.step next
  have hiff : ∀ (s : Journal) next, s.Valid → s.Unblocked →
      ((s.step next).Unblocked ↔ s.Safe next) := fun _ next hv h => unblocked_step_iff hv h next
  rw [everyState_iff_everyStep hkeep hiff steps valid_start unblocked_start, everyStep_iff_split]
  simp only [safe_iff_timely]

/-! ## A blocked reader -/

/-- `follow` stands at a send to a parser that does not receive any more. -/
structure Blocked (ch : Channel) (le : LogEntry) (s : Journal) : Prop where
  sending : s.follow = .sending ch le
  stopped : (s.parsers[ch]?).any ParserState.stopped = true

theorem Blocked.not_receives (h : Blocked ch le s) : s.receives ch = false := by
  have hstopped := h.stopped
  unfold receives
  cases hp : s.parsers[ch]? with
  | none => rfl
  | some p =>
    rw [hp, Option.any_some] at hstopped
    simp [hstopped]

theorem any_stopped_modify {ps : List ParserState} {f : ParserState → ParserState}
    (hf : ∀ p, p.stopped = true → (f p).stopped = true) (j : Channel)
    (h : (ps[ch]?).any ParserState.stopped = true) :
    ((ps.modify j f)[ch]?).any ParserState.stopped = true := by
  obtain ⟨p, hp, hstopped⟩ := (Option.any_eq_true _ _).mp h
  rw [List.getElem?_modify, hp, Option.map_eq_map, Option.map_some, Option.any_some]
  split
  · exact hf p hstopped
  · exact hstopped

theorem Blocked.step (h : Blocked ch le s) (next : JournalStep) :
    Blocked ch le (s.step next) ∧ (s.step next).delivered = s.delivered := by
  cases next with
  | read result =>
    simp only [Journal.step, h.sending]
    exact ⟨h, trivial⟩
  | look =>
    simp only [Journal.step, h.sending]
    exact ⟨h, trivial⟩
  | receive =>
    simp only [Journal.step, h.sending, h.not_receives, Bool.false_eq_true, if_false]
    exact ⟨h, trivial⟩
  | subscribe cgroup =>
    simp only [Journal.step]
    split
    · refine ⟨⟨h.sending, ?_⟩, rfl⟩
      obtain ⟨p, hp, hstopped⟩ := (Option.any_eq_true _ _).mp h.stopped
      simp only [getElem?_concat_of_some hp, Option.any_some, hstopped]
    · exact ⟨h, rfl⟩
  | unsubscribe j cgroup =>
    refine ⟨⟨h.sending, any_stopped_modify (fun p hp => ?_) j h.stopped⟩, rfl⟩
    exact hp
  | stopParser j =>
    refine ⟨⟨h.sending, any_stopped_modify (fun p hp => ?_) j h.stopped⟩, rfl⟩
    split
    · rfl
    · exact hp

/-- **A blocked reader stays blocked, and nothing is delivered to any container.** -/
theorem blocked_forever : ∀ (steps : List JournalStep) {s : Journal}, Blocked ch le s →
    Blocked ch le (steps.foldl Journal.step s) ∧
      (steps.foldl Journal.step s).delivered = s.delivered
  | [], _, h => ⟨h, rfl⟩
  | next :: steps, _, h => by
    obtain ⟨hnext, hdelivered⟩ := h.step next
    obtain ⟨hend, hsame⟩ := blocked_forever steps hnext
    exact ⟨hend, hsame.trans hdelivered⟩

/-- Two containers; the first one is stopped while `follow` is about to send it an entry. -/
def stoppedInFlight : List JournalStep :=
  [.subscribe "/system.slice/a", .subscribe "/system.slice/b",
    .read (.entry ⟨"started", "/system.slice/a", "6", 1⟩), .look,
    .unsubscribe 0 "/system.slice/a", .stopParser 0]

/-- **The reader is blocked at a channel that was released, and the second container never gets an
entry.** -/
theorem stop_blocks_reader :
    (stoppedInFlight.foldl step start).follow = .sending 0 ⟨1, "started", "6"⟩ ∧
    (stoppedInFlight.foldl step start).released 0 = true ∧
    ∀ steps : List JournalStep,
      (steps.foldl step (stoppedInFlight.foldl step start)).delivered = [] := by
  have hsending : (stoppedInFlight.foldl step start).follow = .sending 0 ⟨1, "started", "6"⟩ := by
    decide +kernel
  have hstopped : ((stoppedInFlight.foldl step start).parsers[0]?).any ParserState.stopped =
      true := by decide +kernel
  refine ⟨hsending, by decide +kernel, fun steps => ?_⟩
  exact (blocked_forever steps ⟨hsending, hstopped⟩).2.trans (by decide +kernel)

end Journal

end Logs

import AndroidLearn.Lib.RingBuffer
import AndroidLearn.Lib.Run

/-!
# The message history of the main looper

The patch of `Looper.java` in
`0001-Loop-tools-Dump-MessageHistory-for-Looper-when-happe.patch`: `MessageHistory`,
`MessageHistoryList` and what `loop` and `dump` do with them. Before a message is
dispatched `loop` adds it to a ring of forty `MessageHistory` objects, and after it writes
the time it took into the object that `add` returned. An object is made once and then used
again and again, so it stands for its slot.

A dispatch may call `loop` itself, so that messages are dispatched within a message
(`Frame` is one that is under way); another thread dumps the ring at any moment. Each of
`add`, the write behind the dispatch, and the dump is one step: the first and the last
hold the lock of the list, and what the write changes is one field. The queue of the
messages is left out.

Theorem: `history_run`: over every run the dump never throws, and shows the last forty
messages, the most recent first, each with its own time. The slots are those of
`Lib.RingBuffer`.
-/

namespace AndroidLearn.Loop.History

open RingBuffer Run

/-! ## The ring -/

/-- The parts of a message the history takes down; a missing one is `null`. -/
structure Message where
  what : Int
  target : Option String
  callback : Option String
  deriving DecidableEq, Repr

/-- The record of a message, of which `takenTime` is -1 until the message has returned. -/
structure MessageHistory where
  msgWhat : Int
  msgTarget : String
  msgCallback : String
  takenTime : Int
  startTime : Int
  deriving DecidableEq, Repr

/-- The constructor. -/
def MessageHistory.new (msg : Message) (start : Int) : MessageHistory where
  msgWhat := msg.what
  msgTarget := msg.target.getD "null"
  msgCallback := msg.callback.getD "null"
  takenTime := -1
  startTime := start

/-- A record that is used again. -/
def MessageHistory.setValue (m : MessageHistory) (msg : Message) (start : Int) : MessageHistory :=
  { m with
    msgWhat := msg.what
    msgTarget := msg.target.getD "null"
    msgCallback := msg.callback.getD "null"
    takenTime := -1
    startTime := start }

/-- `MAX_NUM_OF_MESSAGE` -/
def maxNumOfMessage : Nat := 40

/-- The ring of records. A place that was never used is `null`. -/
structure MessageHistoryList where
  array : List (Option MessageHistory)
  tail : Nat
  head : Nat
  size : Nat
  deriving DecidableEq, Repr

/-- The list of a new looper. -/
def MessageHistoryList.empty : MessageHistoryList :=
  ⟨List.replicate maxNumOfMessage none, 0, 0, 0⟩

/-- `none` if it throws; a null is used at once by the caller. -/
def MessageHistoryList.get (l : MessageHistoryList) (i : Nat) : Option MessageHistory :=
  if l.size = 0 ∨ i ≥ l.size then none
  else l.array[(l.head + i) % maxNumOfMessage]?.join

/-- The list after it, and the slot of the object that is returned. -/
def MessageHistoryList.add (l : MessageHistoryList) (msg : Message) (start : Int) :
    MessageHistoryList × Nat :=
  let ret :=
    match l.array[l.tail]?.join with
    | none => .new msg start
    | some history => history.setValue msg start
  let array := l.array.set l.tail (some ret)
  let tail := (l.tail + 1) % maxNumOfMessage
  (if l.size < maxNumOfMessage then ⟨array, tail, l.head, l.size + 1⟩
    else ⟨array, tail, tail, l.size⟩, l.tail)

/-- `headMsg.takenTime = lastTime` -/
def MessageHistoryList.take (l : MessageHistoryList) (slot : Nat) (lastTime : Int) :
    MessageHistoryList :=
  { l with array := l.array.modify slot (Option.map fun m => { m with takenTime := lastTime }) }

/-! ## The dump -/

/-- What else the dump prints. -/
structure Looper where
  threadName : String
  /-- `toString ()` -/
  text : String
  /-- `mQueue.dump` with a prefix -/
  queue : String → List String

/-- What is printed about a message, with the time it has taken so far if it has not returned. -/
def MessageHistory.line (h : MessageHistory) (pre : String) (now : Int) : String :=
  if h.takenTime = -1 then
    pre ++ h.msgTarget ++ " " ++ h.msgCallback ++ ": " ++ toString h.msgWhat ++ ", " ++
      "Unfinished(" ++ toString (now - h.startTime) ++ "ms), start=" ++ toString h.startTime
  else
    pre ++ h.msgTarget ++ " " ++ h.msgCallback ++ ": " ++ toString h.msgWhat ++ ", " ++
      toString h.takenTime ++ "ms, start=" ++ toString h.startTime

/-- The loop, `now i` being the time when entry `i` is printed. -/
def MessageHistoryList.dump (l : MessageHistoryList) (pre : String) (now : Nat → Int) :
    Nat → Option (List String)
  | 0 => some []
  | numOfSize + 1 => do
    let history ← l.get numOfSize
    let rest ← l.dump pre now numOfSize
    return history.line pre (now numOfSize) :: rest

/-- `none` if it throws. -/
def Looper.dump (looper : Looper) (messages : Option MessageHistoryList) (pre : String)
    (now : Nat → Int) : Option (List String) := do
  let history ←
    match messages with
    | none => some []
    | some l => l.dump pre now l.size
  return [pre ++ "Dump looper, process: " ++ looper.threadName,
    pre ++ "===== Message History (Most recent to least recent) ====="] ++ history ++
    [pre ++ looper.text] ++ looper.queue (pre ++ "  ")

/-! ## The loop -/

/-- A message that is being dispatched: the variables of `loop`. -/
structure Frame where
  msg : Message
  startTime : Int
  headMsg : Option Nat
  /-- how many messages there were before it -/
  index : Nat
  deriving DecidableEq, Repr

/-- A message that was dispatched, with the time it took. -/
structure Entry where
  msg : Message
  startTime : Int
  taken : Option Int
  deriving DecidableEq, Repr

/-- A looper and what it has printed, and, beside the state, every message there has been. -/
structure State where
  /-- `null` but for the main looper -/
  messages : Option MessageHistoryList
  /-- the innermost first -/
  frames : List Frame
  /-- the tag `Performance` of the log -/
  performance : List String
  /-- all messages, in the order they were dispatched -/
  past : List Entry
  deriving DecidableEq, Repr

/-- `prepareMainLooper` gives its looper a list. -/
def State.init (main : Bool) : State :=
  ⟨if main then some .empty else none, [], [], []⟩

/-- What `loop` does with its messages. A dispatch may run a loop of its own, hence the nesting. -/
inductive Event
  /-- the next message, up to its dispatch -/
  | begin (msg : Message) (now : Int)
  /-- the dispatch of the innermost message returns -/
  | finish (now : Int)
  deriving DecidableEq, Repr

/-- A message is taken down, and its dispatch begins. -/
def State.begin (s : State) (msg : Message) (now : Int) : State :=
  let added := s.messages.map (·.add msg now)
  { s with
    messages := added.map Prod.fst
    frames := ⟨msg, now, added.map Prod.snd, s.past.length⟩ :: s.frames
    past := s.past ++ [⟨msg, now, none⟩] }

/-- The line of a message that took more than a second. -/
def Frame.performance (f : Frame) (lastTime : Int) : String :=
  "More than 1s to handle " ++ f.msg.target.getD "null" ++ " " ++ f.msg.callback.getD "null" ++
    ": " ++ toString f.msg.what ++ ", " ++ toString lastTime ++ "ms, start=" ++
    toString f.startTime

/-- The innermost dispatch returns, and its record gets the time it took. -/
def State.finish (s : State) (now : Int) : State :=
  match s.frames with
  | [] => s
  | f :: frames =>
    let lastTime := now - f.startTime
    let past := s.past.modify f.index fun e => { e with taken := some lastTime }
    match s.messages with
    | none => { s with frames := frames, past := past }
    | some l =>
      { messages := some (match f.headMsg with
          | none => l
          | some slot => l.take slot lastTime)
        frames := frames
        performance := s.performance ++ if lastTime > 1000 then [f.performance lastTime] else []
        past := past }

/-- The looper takes a step. -/
def State.step (s : State) : Event → State
  | .begin msg now => s.begin msg now
  | .finish now => s.finish now

/-! ## What the dump shows -/

/-- The object of an entry. -/
def Entry.history (e : Entry) : MessageHistory :=
  { MessageHistory.new e.msg e.startTime with takenTime := e.taken.getD (-1) }

/-- What the dump should show of an entry. -/
def Entry.line (e : Entry) (pre : String) (now : Int) : String :=
  let message := pre ++ e.msg.target.getD "null" ++ " " ++ e.msg.callback.getD "null" ++ ": " ++
    toString e.msg.what ++ ", "
  match e.taken with
  | none =>
    message ++ "Unfinished(" ++ toString (now - e.startTime) ++ "ms), start=" ++
      toString e.startTime
  | some taken => message ++ toString taken ++ "ms, start=" ++ toString e.startTime

/-- The condition on one step: the clock does not go back, and the object of a message
that returns is not in use for another one. -/
def Timely (s : State) : Event → Prop
  | .begin _ _ => True
  | .finish now => ∀ f ∈ s.frames.head?, f.startTime ≤ now ∧
      s.past.length ≤ f.index + maxNumOfMessage

instance (s : State) : (e : Event) → Decidable (Timely s e)
  | .begin _ _ => .isTrue trivial
  | .finish now => inferInstanceAs (Decidable (∀ f ∈ s.frames.head?, f.startTime ≤ now ∧
      s.past.length ≤ f.index + maxNumOfMessage))

/-- The list is the ring of all that was added. -/
structure MessageHistoryList.Holds (l : MessageHistoryList) (past : List Entry) : Prop where
  keeps : Keeps maxNumOfMessage l.array (past.map Entry.history)
  tail : l.tail = past.length % maxNumOfMessage
  head : l.head = (past.length - maxNumOfMessage) % maxNumOfMessage
  size : l.size = min maxNumOfMessage past.length

/-- The list holds the last messages, and each dispatch under way knows where its own record is. -/
structure State.Inv (main : Bool) (s : State) : Prop where
  list : if main then ∃ l, s.messages = some l ∧ l.Holds s.past else s.messages = none
  frames : ∀ f ∈ s.frames, f.index < s.past.length ∧
    f.headMsg = if main then some (f.index % maxNumOfMessage) else none
  taken : ∀ e ∈ s.past, ∀ t ∈ e.taken, 0 ≤ t

section List

variable {l : MessageHistoryList} {past : List Entry}

theorem holds_empty : MessageHistoryList.empty.Holds [] :=
  { keeps := keeps_nil, tail := rfl, head := rfl, size := rfl }

/-- One message more is taken down. -/
theorem MessageHistoryList.Holds.add (h : l.Holds past) (msg : Message) (start : Int) :
    (l.add msg start).1.Holds (past ++ [⟨msg, start, none⟩]) := by
  have hpush : Keeps maxNumOfMessage (l.array.set l.tail (some (.new msg start)))
      ((past ++ [Entry.mk msg start none]).map Entry.history) := by
    have hkeeps := h.keeps.push (by decide) (MessageHistory.new msg start)
    rw [List.length_map, ← h.tail] at hkeeps
    rw [List.map_append]
    exact hkeeps
  have hret : (match l.array[l.tail]?.join with
      | none => MessageHistory.new msg start
      | some history => history.setValue msg start) = .new msg start := by
    split <;> rfl
  have htail := h.tail
  have hhead := h.head
  have hsize := h.size
  simp only [MessageHistoryList.add, hret]
  split
  · next hlt =>
    rw [hsize] at hlt
    refine ⟨hpush, ?_, ?_, ?_⟩ <;>
      simp only [List.length_append, List.length_singleton, maxNumOfMessage] at * <;> omega
  · next hge =>
    rw [hsize] at hge
    refine ⟨hpush, ?_, ?_, ?_⟩ <;>
      simp only [List.length_append, List.length_singleton, maxNumOfMessage] at * <;> omega

/-- A message gets its time, as long as it is one of the last. -/
theorem MessageHistoryList.Holds.take (h : l.Holds past) {k : Nat} (hk : k < past.length)
    (hle : past.length ≤ k + maxNumOfMessage) (lastTime : Int) :
    (l.take (k % maxNumOfMessage) lastTime).Holds
      (past.modify k fun e => { e with taken := some lastTime }) := by
  have hmodify := h.keeps.modify (fun m => { m with takenTime := lastTime }) (k := k)
    (by simpa using hk) (by simpa using hle)
  refine ⟨?_, ?_, ?_, ?_⟩
  · show Keeps _ (l.array.modify _ _) _
    have hmap : (past.modify k fun e => { e with taken := some lastTime }).map Entry.history =
        (past.map Entry.history).modify k fun m => { m with takenTime := lastTime } :=
      map_modify (by exact fun _ => rfl) k
    rw [hmap]
    exact hmodify
  · rw [List.length_modify]
    exact h.tail
  · rw [List.length_modify]
    exact h.head
  · rw [List.length_modify]
    exact h.size

/-- The list is read from the oldest. -/
theorem MessageHistoryList.Holds.get (h : l.Holds past) {i : Nat} (hi : i < l.size) :
    ∃ e, (past.drop (past.length - maxNumOfMessage))[i]? = some e ∧ l.get i = some e.history := by
  rw [h.size] at hi
  have hlength : (past.map Entry.history).length = past.length := List.length_map _
  obtain ⟨m, hm, hslot⟩ := h.keeps.get (i := i) (by rw [hlength]; exact hi)
  rw [hlength] at hm hslot
  rw [← List.map_drop, List.getElem?_map] at hm
  obtain ⟨e, he, rfl⟩ := Option.map_eq_some_iff.mp hm
  refine ⟨e, he, ?_⟩
  rw [MessageHistoryList.get, if_neg (by rw [h.size]; omega), h.head, hslot]
  rfl

/-- It is printed from the newest. -/
theorem MessageHistoryList.Holds.dump (h : l.Holds past) (pre : String) (now : Nat → Int) :
    ∀ k, k ≤ l.size → l.dump pre now k =
      some ((((past.drop (past.length - maxNumOfMessage)).take k).mapIdx fun i e =>
        e.history.line pre (now i)).reverse)
  | 0, _ => rfl
  | k + 1, hk => by
    obtain ⟨e, he, hget⟩ := h.get (Nat.lt_of_succ_le hk)
    have hrest := h.dump pre now k (Nat.le_of_succ_le hk)
    have hlt := (List.getElem?_eq_some_iff.mp he).1
    rw [MessageHistoryList.dump, hget, hrest, List.take_add_one, he, Option.toList_some,
      List.mapIdx_concat, List.reverse_concat, List.length_take, Nat.min_eq_left hlt.le]
    rfl

/-- The time of an entry that has returned is not the -1 of one that has not. -/
theorem history_line {e : Entry} (h : ∀ t ∈ e.taken, 0 ≤ t) (pre : String) (now : Int) :
    e.history.line pre now = e.line pre now := by
  cases htaken : e.taken with
  | none =>
    rw [MessageHistory.line, Entry.history, Entry.line, htaken]
    rfl
  | some t =>
    have hne : t ≠ -1 := by
      have := h t htaken
      omega
    rw [MessageHistory.line, Entry.history, Entry.line, htaken]
    exact if_neg hne

end List

section Step

variable {main : Bool} {s : State}

/-- A dispatch begins. -/
theorem State.Inv.begin (h : s.Inv main) (msg : Message) (now : Int) :
    (s.begin msg now).Inv main := by
  refine ⟨?_, ?_, ?_⟩
  · have hlist := h.list
    cases main with
    | true =>
      obtain ⟨l, hl, hholds⟩ := hlist
      refine ⟨(l.add msg now).1, ?_, hholds.add msg now⟩
      show ((s.messages.map (·.add msg now)).map Prod.fst) = _
      rw [hl]
      rfl
    | false =>
      show ((s.messages.map (·.add msg now)).map Prod.fst) = none
      rw [show s.messages = none from hlist]
      rfl
  · intro f hf
    show f.index < (s.past ++ [_]).length ∧ _
    rw [List.length_append, List.length_singleton]
    rcases List.mem_cons.mp hf with rfl | hf
    · refine ⟨Nat.lt_succ_self _, ?_⟩
      have hlist := h.list
      show (s.messages.map (·.add msg now)).map Prod.snd = _
      cases main with
      | true =>
        obtain ⟨l, hl, hholds⟩ := hlist
        rw [hl]
        show some l.tail = some _
        rw [hholds.tail]
      | false =>
        rw [show s.messages = none from hlist]
        rfl
    · obtain ⟨hlt, hhead⟩ := h.frames f hf
      exact ⟨by omega, hhead⟩
  · exact List.forall_mem_append.mpr ⟨h.taken, List.forall_mem_singleton.mpr (by simp)⟩

/-- A message takes no negative time. -/
theorem taken_modify {k : Nat} {lastTime : Int} (h : ∀ e ∈ s.past, ∀ t ∈ e.taken, 0 ≤ t)
    (hlast : 0 ≤ lastTime) :
    ∀ e ∈ s.past.modify k fun e => { e with taken := some lastTime }, ∀ t ∈ e.taken, 0 ≤ t := by
  intro e he t ht
  obtain ⟨i, hi⟩ := List.mem_iff_getElem?.mp he
  rw [List.getElem?_modify] at hi
  obtain ⟨e', he', rfl⟩ := Option.map_eq_some_iff.mp hi
  split at ht
  · obtain rfl := Option.some.inj ht
    exact hlast
  · exact h e' (List.mem_of_getElem? he') t ht

/-- A dispatch returns. -/
theorem State.Inv.finish (h : s.Inv main) {now : Int} (hnow : Timely s (.finish now)) :
    (s.finish now).Inv main := by
  unfold State.finish
  split
  · exact h
  · next f frames hframes =>
    obtain ⟨hstart, hround⟩ := hnow f (by rw [hframes]; rfl)
    obtain ⟨hlt, hhead⟩ := h.frames f (by rw [hframes]; exact List.mem_cons_self)
    have hrest : ∀ g ∈ frames, g.index < (s.past.modify f.index fun e =>
        { e with taken := some (now - f.startTime) }).length ∧
        g.headMsg = if main then some (g.index % maxNumOfMessage) else none := by
      intro g hg
      rw [List.length_modify]
      exact h.frames g (by rw [hframes]; exact List.mem_cons_of_mem _ hg)
    have htaken := taken_modify (k := f.index) h.taken (Int.sub_nonneg_of_le hstart)
    have hlist := h.list
    cases main with
    | true =>
      obtain ⟨l, hl, hholds⟩ := hlist
      rw [hl, hhead]
      exact ⟨⟨_, rfl, hholds.take hlt hround _⟩, hrest, htaken⟩
    | false =>
      rw [show s.messages = none from hlist]
      exact ⟨rfl, hrest, htaken⟩

/-- Every timely event keeps the invariant. -/
theorem State.Inv.step (h : s.Inv main) {e : Event} (he : Timely s e) : (s.step e).Inv main := by
  cases e with
  | begin msg now => exact h.begin msg now
  | finish now => exact h.finish he

/-- It holds before there was a message. -/
theorem inv_init (main : Bool) : (State.init main).Inv main := by
  refine ⟨?_, by simp [State.init], by simp [State.init]⟩
  cases main with
  | true => exact ⟨_, rfl, holds_empty⟩
  | false => rfl

end Step

/-- After every run in which the clock does not go back and no message returns that is
forty messages behind, a dump throws nothing. Of the main looper it shows the last forty
messages that were dispatched, the most recent first, each with the time it took or as
unfinished; of another looper none. -/
theorem history_run (main : Bool) (events : List Event)
    (htimely : AllSteps State.step Timely (.init main) events) (looper : Looper) (pre : String)
    (now : Nat → Int) :
    let s := events.foldl State.step (.init main)
    looper.dump s.messages pre now = some (
      [pre ++ "Dump looper, process: " ++ looper.threadName,
        pre ++ "===== Message History (Most recent to least recent) ====="] ++
      (if main then
        ((s.past.drop (s.past.length - 40)).mapIdx fun i e => e.line pre (now i)).reverse
      else []) ++
      [pre ++ looper.text] ++ looper.queue (pre ++ "  ")) := by
  intro s
  have h : s.Inv main := AllSteps.invariant (fun _ _ h he => h.step he) (inv_init main) htimely
  have hlist := h.list
  cases main with
  | false =>
    rw [show s.messages = none from hlist]
    rfl
  | true =>
    obtain ⟨l, hl, hholds⟩ := hlist
    have hdump := hholds.dump pre now l.size (Nat.le_refl _)
    have htake : (s.past.drop (s.past.length - maxNumOfMessage)).take l.size =
        s.past.drop (s.past.length - maxNumOfMessage) := by
      refine List.take_of_length_le ?_
      rw [List.length_drop, hholds.size]
      omega
    have hlines : (s.past.drop (s.past.length - maxNumOfMessage)).mapIdx
        (fun i e => e.history.line pre (now i)) =
        (s.past.drop (s.past.length - maxNumOfMessage)).mapIdx fun i e => e.line pre (now i) := by
      refine List.mapIdx_eq_mapIdx_iff.mpr fun i hi => ?_
      exact history_line (h.taken _ (List.mem_of_mem_drop (List.getElem_mem hi))) pre _
    rw [htake, hlines] at hdump
    rw [hl, Looper.dump]
    dsimp only
    rw [hdump]
    rfl

/-- A message within a message. -/
theorem history_run_nested :
    let events : List Event := [.begin ⟨1, some "h", none⟩ 10, .begin ⟨2, none, some "c"⟩ 11,
      .finish 15, .begin ⟨3, none, none⟩ 16]
    let s := events.foldl State.step (.init true)
    (Looper.mk "main" "Looper" fun _ => []).dump s.messages "MSG: " (fun _ => 20) = some (
      ["MSG: " ++ "Dump looper, process: " ++ "main",
        "MSG: " ++ "===== Message History (Most recent to least recent) ====="] ++
      ((s.past.drop (s.past.length - 40)).mapIdx fun _ e => e.line "MSG: " 20).reverse ++
      ["MSG: " ++ "Looper"] ++ []) :=
  history_run true _ (by decide) ⟨"main", "Looper", fun _ => []⟩ "MSG: " fun _ => 20

end AndroidLearn.Loop.History

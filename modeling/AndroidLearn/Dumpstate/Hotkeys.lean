import AndroidLearn.Lib.Matcher

/-!
# Key sequences

The key thread of `dumpstate.c` counts key-ups against two sequences of nine keys. At the
end of the one it takes a bug report, at the end of the other it runs the debug action,
and when no event has come for a while it forgets both.

`poll_multiple_wait` comes back with an event or with a timeout (`Polled`), and an event
is the type, the code and the value that the driver has sent. Which device it came from,
the vibrator and what the two actions do are left out: an action is what the thread has
decided on (`Action`).

The counts are those of `Lib.Matcher`, one less and kept in an `int`, so that the switch
of the source is one step of the matcher for each sequence (`step_actions`). A key-up that
breaks off a false start is dropped, and so is the one behind a complete sequence, also
where it is the first key of the next one.

Theorem: `hotkeys_iff` says where sequences are missed by that. For every list of events
both sequences are recognised if and only if no false start runs into one of them
(`ClearStarts`).
-/

namespace AndroidLearn.Dumpstate

open Matcher

def evKey : Nat := 1

def keyVolumeDown : Nat := 114

def keyVolumeUp : Nat := 115

def keyPower : Nat := 116

/-- `struct input_event`, without its time. -/
structure InputEvent where
  type : Nat
  code : Nat
  value : Int

/-- What `poll_multiple_wait` comes back with. -/
inductive Polled
  | timeout
  | event (ie : InputEvent)

/-- How far the two sequences have got, -1 at the start. -/
structure Triggers where
  trigger : Int
  debugTrigger : Int

/-- What a sequence sets off. -/
inductive Action
  | doBugreport
  | doHotkeyDebug
  deriving DecidableEq

/-- up down up down up up down down down -/
def bugreportKeys : List Nat :=
  [keyVolumeUp, keyVolumeDown, keyVolumeUp, keyVolumeDown, keyVolumeUp, keyVolumeUp,
    keyVolumeDown, keyVolumeDown, keyVolumeDown]

/-- down up down up down down up up up -/
def debugKeys : List Nat :=
  [keyVolumeDown, keyVolumeUp, keyVolumeDown, keyVolumeUp, keyVolumeDown, keyVolumeDown,
    keyVolumeUp, keyVolumeUp, keyVolumeUp]

/-- An event that gets to the triggers: the power key does not, all other keys do. -/
def InputEvent.isKeyUp (ie : InputEvent) : Bool :=
  decide (ie.type = evKey) && decide (ie.code ≠ keyPower) && decide (ie.value = 0)

/-- `switch (trigger)`: the trigger, and whether this is the end of the keys. -/
def switch (keys : List Nat) (trigger : Int) (code : Nat) : Int × Bool :=
  match keys[trigger.toNat]? with
  | some key => if code ≠ key then (-1, false) else (trigger, decide (trigger = 8))
  | none => (-1, false)

/-- One round of the loop of `thread_main`, with what it sets off. -/
def step (t : Triggers) : Polled → Triggers × List Action
  | .timeout => (⟨-1, -1⟩, [])
  | .event ie =>
    if ie.isKeyUp then
      let (trigger, bugreport) := switch bugreportKeys (t.trigger + 1) ie.code
      let (debugTrigger, debug) := switch debugKeys (t.debugTrigger + 1) ie.code
      (⟨trigger, debugTrigger⟩, (if bugreport then [.doBugreport] else []) ++
        (if debug then [.doHotkeyDebug] else []))
    else (t, [])

/-- The triggers after these events. -/
def run (events : List Polled) : Triggers :=
  events.foldl (fun t e => (step t e).1) ⟨-1, -1⟩

/-! ## What should be recognised -/

/-- The keys that have come up since the last timeout, and one event more. -/
def note (keys : List Nat) : Polled → List Nat
  | .timeout => []
  | .event ie => if ie.isKeyUp then keys ++ [ie.code] else keys

/-- The keys that were let go since the last timeout, in order. -/
def keyUps (events : List Polled) : List Nat := events.foldl note []

/-- Is it a key that is let go? -/
def Polled.isKeyUp : Polled → Bool
  | .timeout => false
  | .event ie => ie.isKeyUp

/-- The action is taken at a key-up exactly if that ends the keys. -/
def Recognises (keys : List Nat) (action : Action) (events : List Polled) : Prop :=
  ∀ front e, front ++ [e] <+: events →
    (action ∈ (step (run front) e).2 ↔ e.isKeyUp = true ∧ keys <:+ keyUps (front ++ [e]))

/-- Wherever the keys come, there are false starts alone between them and the last timeout. -/
def ClearStarts (keys : List Nat) (events : List Polled) : Prop :=
  ∀ front e, front ++ [e] <+: events → e.isKeyUp = true →
    ∀ before, keyUps (front ++ [e]) = before ++ keys → Fresh keys before

/-! ## The triggers and the counts -/

/-- A turn of the switch, as a step along the sequence. -/
theorem switch_eq {keys : List Nat} (hkeys : keys.length = 9) (m code : Nat) :
    switch keys m code =
      ((advance keys m code : Int) - 1, decide (advance keys m code = keys.length)) := by
  rw [switch, Int.toNat_natCast, advance]
  cases hkey : keys[m]? with
  | none => simp [hkeys]
  | some key =>
    by_cases hcode : key = code
    · subst hcode
      have hlast : ((m : Int) = 8) = (m + 1 = 9) := propext ⟨by omega, by omega⟩
      simp [hkeys, hlast]
    · simp [hkeys, hcode, Ne.symm hcode]

theorem length_bugreportKeys : bugreportKeys.length = 9 := rfl

theorem length_debugKeys : debugKeys.length = 9 := rfl

/-- One more event. -/
theorem keyUps_concat (front : List Polled) (e : Polled) :
    keyUps (front ++ [e]) = note (keyUps front) e := by
  rw [keyUps, List.foldl_append]
  rfl

theorem run_concat (front : List Polled) (e : Polled) :
    run (front ++ [e]) = (step (run front) e).1 := by
  rw [run, List.foldl_append]
  rfl

/-- A trigger is one less than what is matched of its keys. -/
theorem run_eq (events : List Polled) :
    run events = ⟨(matched bugreportKeys (keyUps events) : Int) - 1,
      (matched debugKeys (keyUps events) : Int) - 1⟩ := by
  induction events using List.reverseRecOn with
  | nil => rfl
  | append_singleton events e ih =>
    rw [run_concat, keyUps_concat, ih]
    cases e with
    | timeout => rfl
    | event ie =>
      by_cases hup : ie.isKeyUp = true
      · simp only [step, note, hup, if_true, Int.sub_add_cancel, matched_concat,
          switch_eq length_bugreportKeys, switch_eq length_debugKeys]
      · simp only [step, note, hup, if_false, Bool.false_eq_true]

/-- What a key-up sets off is what comes to be matched with it. -/
theorem step_actions (front : List Polled) {e : Polled} (hup : e.isKeyUp = true) :
    (.doBugreport ∈ (step (run front) e).2 ↔
      matched bugreportKeys (keyUps (front ++ [e])) = bugreportKeys.length) ∧
    (.doHotkeyDebug ∈ (step (run front) e).2 ↔
      matched debugKeys (keyUps (front ++ [e])) = debugKeys.length) := by
  cases e with
  | timeout => cases hup
  | event ie =>
    have hup' : ie.isKeyUp = true := hup
    rw [run_eq, keyUps_concat]
    simp only [step, note, hup', if_true, Int.sub_add_cancel, matched_concat,
      switch_eq length_bugreportKeys, switch_eq length_debugKeys]
    constructor
    · simp
    · simp

/-- What is no key-up sets nothing off. -/
theorem step_quiet (t : Triggers) {e : Polled} (hup : e.isKeyUp = false) : (step t e).2 = [] := by
  cases e with
  | timeout => rfl
  | event ie =>
    have hup' : ie.isKeyUp = false := hup
    rw [step, hup']
    rfl

/-- The action is set off at the right places, when no false start is cut short. -/
theorem recognises_iff {keys : List Nat} {action : Action}
    (hfires : ∀ front e, e.isKeyUp = true → (action ∈ (step (run front) e).2 ↔
      matched keys (keyUps (front ++ [e])) = keys.length)) (events : List Polled) :
    Recognises keys action events ↔ ClearStarts keys events := by
  unfold Recognises ClearStarts
  apply forall_congr'
  intro front
  apply forall_congr'
  intro e
  apply forall_congr'
  intro _
  cases hup : e.isKeyUp with
  | false =>
    rw [step_quiet _ hup]
    simp
  | true =>
    rw [hfires front e hup, ← seen_iff]
    simp

/-- Both sequences are recognised exactly where they follow on false starts. -/
theorem hotkeys_iff (events : List Polled) :
    (Recognises bugreportKeys .doBugreport events ∧ Recognises debugKeys .doHotkeyDebug events) ↔
      ClearStarts bugreportKeys events ∧ ClearStarts debugKeys events := by
  rw [recognises_iff fun front e hup => (step_actions front hup).1,
    recognises_iff fun front e hup => (step_actions front hup).2]

/-- Volume up once too often in front of the keys of the bug report. -/
def twiceUp : List Polled :=
  (keyVolumeUp :: bugreportKeys).map fun code => .event ⟨evKey, code, 0⟩

theorem hotkeys_fails_twiceUp :
    ¬ (Recognises bugreportKeys .doBugreport twiceUp ∧
      Recognises debugKeys .doHotkeyDebug twiceUp) := by
  rintro ⟨h, -⟩
  have hmissed := (h (twiceUp.take 9) (.event ⟨evKey, keyVolumeDown, 0⟩) (List.prefix_refl _)).mpr
    ⟨rfl, ⟨[keyVolumeUp], rfl⟩⟩
  exact absurd hmissed (by decide)

end AndroidLearn.Dumpstate

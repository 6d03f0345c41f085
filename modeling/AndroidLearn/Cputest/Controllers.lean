import AndroidLearn.Conf.Conf
import AndroidLearn.Lib.Run

/-!
# The CPU controllers of `cputest`

From `cputest.c`: `enable_cpu_controller (0)` notes what the controllers are and stops them,
and `enable_cpu_controller (1)` makes them what was noted. A test does the one when it starts
and the other when it ends, and `:setctrlstatus:` either, while no test runs. What is noted
is noted anew each time.

What is taken of the device: a service that is told to stop has stopped, and one that is told
to start runs; the kernel takes a governor that is among the available ones; a hotplug node
holds a number, gives it as a line of digits, and takes a digit that is written to it. The
frequency range and which CPUs are on are left out.

`restored_run`: whenever the controllers are enabled after a disable, all is as it was before
the first, in every run whose disables meet `Restorable`. The invariant between a disable
and an enable is that what is noted leads back to the settings before (`LeadsBack`); a second
disable keeps it only if there was nothing to note (`LeadsBack.off`).
-/

namespace AndroidLearn.Cputest.Controllers

open Conf Run

/-! ## The device -/

def running : CString := "running".toList
def stopped : CString := "stopped".toList
def unknown : CString := "unknown".toList

/-- The governor under which a frequency can be set. -/
def govUserspace : CString := "userspace".toList
/-- The governor that is set when the test ends. -/
def govOndemand : CString := "ondemand".toList

/-- A text for each of the services that control the CPUs. -/
structure Services where
  pnpmgr : CString
  thermald : CString
  mpdecision : CString
  deriving DecidableEq, Repr

def Services.map (f : CString → CString) (s : Services) : Services :=
  ⟨f s.pnpmgr, f s.thermald, f s.mpdecision⟩

def Services.zip (f : CString → CString → CString) (s t : Services) : Services :=
  ⟨f s.pnpmgr t.pnpmgr, f s.thermald t.thermald, f s.mpdecision t.mpdecision⟩

/-- The governor of a CPU is one of those that are available. -/
structure Governor where
  available : List CString
  current : CString
  mem : current ∈ available
  deriving DecidableEq

/-- `write_cpu_node (node_governor, ...)` -/
def Governor.write (governor : Governor) (name : CString) : Governor :=
  if h : name ∈ governor.available then ⟨governor.available, name, h⟩ else governor

/-- A hotplug node. -/
structure Hotplug where
  value : Int
  deriving DecidableEq

/-- What is read from it. -/
def Hotplug.text (node : Hotplug) : CString := (toString node.value).toList ++ ['\n']

/-- One character is written to it; it has to be a digit. -/
def Hotplug.write (node : Hotplug) (c : Char) : Hotplug :=
  if c.isDigit then ⟨(c.toNat - '0'.toNat : Nat)⟩ else node

/-- What the controllers of the device are. -/
@[ext]
structure Settings where
  /-- the properties `init.svc.*` -/
  services : Services
  /-- `NV_HOTPLUG`, if there is one -/
  nvHotplug : Option Hotplug
  /-- `MTK_HOTPLUG`, if there is one -/
  mtkHotplug : Option Hotplug
  /-- the module `core_ctl` is loaded -/
  coreCtl : Bool
  /-- of each CPU that has one -/
  governors : Nat → Option Governor

/-- What is noted. -/
structure Saved where
  services : Services
  /-- `char default_nv_hotplug [4]` -/
  nvHotplug : CString
  mtkHotplug : CString
  governors : Nat → CString

/-! ## One controller -/

/-- `get_service_state` -/
def serviceState (property : CString) : CString := if property = [] then unknown else property

/-- `ctl.stop`, if the service was running -/
def stopService (saved property : CString) : CString := if saved = running then stopped else property

/-- `ctl.start`, if it was running -/
def startService (saved property : CString) : CString := if saved = running then running else property

/-- The first characters of the node, up to the end of the line. -/
def readHotplug (saved : CString) (node : Option Hotplug) : CString :=
  match node with
  | none => saved
  | some node => (node.text.take 3).takeWhile fun c => c ≠ '\n' ∧ c ≠ '\r'

/-- A hotplug node is switched off if it was on. -/
def stopHotplug (saved : CString) (node : Option Hotplug) : Option Hotplug :=
  node.map fun node => if saved.head? ≠ some '0' then node.write '0' else node

/-- Only the first character is written, be it a null byte. -/
def startHotplug (saved : CString) (node : Option Hotplug) : Option Hotplug :=
  node.map fun node => if saved.head? ≠ some '0' then node.write (saved.headD '\x00') else node

/-! ## All of them -/

/-- `enable_cpu_controller (0)`, what is noted -/
def Saved.save (saved : Saved) (settings : Settings) : Saved where
  services := settings.services.map serviceState
  nvHotplug := readHotplug saved.nvHotplug settings.nvHotplug
  mtkHotplug := readHotplug saved.mtkHotplug settings.mtkHotplug
  governors i := ((settings.governors i).map Governor.current).getD (saved.governors i)

/-- and what is stopped; `busy`: the module cannot be removed -/
def Settings.disable (settings : Settings) (saved : Saved) (busy : Bool) : Settings where
  services := saved.services.zip stopService settings.services
  nvHotplug := stopHotplug saved.nvHotplug settings.nvHotplug
  mtkHotplug := stopHotplug saved.mtkHotplug settings.mtkHotplug
  coreCtl := settings.coreCtl && busy
  governors := settings.governors

/-- `enable_cpu_controller (1)`; `ko`: there is a `core_ctl.ko` to load -/
def Settings.enable (settings : Settings) (saved : Saved) (ko : Bool) : Settings where
  services := saved.services.zip startService settings.services
  nvHotplug := startHotplug saved.nvHotplug settings.nvHotplug
  mtkHotplug := startHotplug saved.mtkHotplug settings.mtkHotplug
  coreCtl := settings.coreCtl || ko
  governors i := (settings.governors i).map fun governor => governor.write (saved.governors i)

/-! ## Runs -/

/-- The settings of the device, what is noted of them, and whether a test runs. -/
structure State where
  settings : Settings
  saved : Saved
  /-- a test runs -/
  working : Bool
  /-- the settings before the first disable since they were last enabled -/
  before : Option Settings

/-- Nothing has been noted, and the memory for the services is as it comes. -/
def State.init (settings : Settings) (services : Services) : State :=
  ⟨settings, ⟨services, [], [], fun _ => []⟩, false, none⟩

/-- The commands, and what a test does to the controllers. -/
inductive Event
  /-- `:setctrlstatus:` -/
  | setCtrlStatus (buffer : CString) (busy : Bool)
  /-- `thread_main` starts -/
  | testStart (busy : Bool)
  /-- the loop sets a governor, to userspace with a frequency or to ondemand -/
  | setGovernor (i : Nat) (user : Bool)
  /-- `thread_main` ends -/
  | testEnd
  deriving DecidableEq, Repr

/-- `enable_cpu_controller (0)` -/
def State.disable (s : State) (busy : Bool) : State :=
  let saved := s.saved.save s.settings
  -- what is noted is overwritten each time, `before` is not
  { s with
    settings := s.settings.disable saved busy
    saved := saved
    before := some (s.before.getD s.settings) }

/-- `enable_cpu_controller (1)` -/
def State.enable (s : State) (ko : Bool) : State :=
  { s with settings := s.settings.enable s.saved ko, before := none }

/-- The loop of a test writes governors as it goes. -/
def State.setGovernors (s : State) (write : Nat → Governor → Governor) : State :=
  { s with
    settings := { s.settings with governors := fun i => (s.settings.governors i).map (write i) } }

/-- A command, or the start or end of a test. -/
def State.step (ko : Bool) (s : State) : Event → State
  | .setCtrlStatus buffer busy =>
    if s.working then s
    else if buffer.head? = some '1' then s.enable ko else s.disable busy
  | .testStart busy => if s.working then s else { s.disable busy with working := true }
  | .setGovernor cpu user =>
    if s.working then
      let name := if user then govUserspace else govOndemand
      s.setGovernors fun i governor => if i = cpu then governor.write name else governor
    else s
  | .testEnd =>
    if s.working then
      { (s.setGovernors fun _ governor => governor.write govOndemand).enable ko with working := false }
    else s

/-! ## The property -/

/-- The event enables the controllers. -/
def State.enables (s : State) : Event → Prop
  | .setCtrlStatus buffer _ => s.working = false ∧ buffer.head? = some '1'
  | .testEnd => s.working = true
  | .testStart _ | .setGovernor _ _ => False

/-- The property at one event. -/
def Restored (ko : Bool) (s : State) (e : Event) : Prop :=
  s.enables e → ∀ settings, s.before = some settings → (s.step ko e).settings = settings

/-- The event disables them, and finds the module busy or not. -/
def State.disables (s : State) (busy : Bool) : Event → Prop
  | .setCtrlStatus buffer busy' => s.working = false ∧ buffer.head? ≠ some '1' ∧ busy' = busy
  | .testStart busy' => s.working = false ∧ busy' = busy
  | .setGovernor _ _ | .testEnd => False

/-- What a hotplug node has is one digit. -/
def Plain (node : Option Hotplug) : Prop :=
  ∀ hotplug, node = some hotplug → 0 ≤ hotplug.value ∧ hotplug.value ≤ 9

/-- None of the controllers that are noted is on. -/
structure Settings.Off (settings : Settings) : Prop where
  pnpmgr : settings.services.pnpmgr ≠ running
  thermald : settings.services.thermald ≠ running
  mpdecision : settings.services.mpdecision ≠ running
  nvHotplug : ∀ node, settings.nvHotplug = some node → node.value = 0
  mtkHotplug : ∀ node, settings.mtkHotplug = some node → node.value = 0

/-- The condition on one event. -/
structure Restorable (ko : Bool) (s : State) (e : Event) : Prop where
  nvHotplug : ∀ busy, s.disables busy e → Plain s.settings.nvHotplug
  mtkHotplug : ∀ busy, s.disables busy e → Plain s.settings.mtkHotplug
  /-- `core_ctl` was loaded if it can be, and cannot be removed if it cannot be loaded -/
  coreCtl : ∀ busy, s.disables busy e →
    (s.before.getD s.settings).coreCtl = ko ∨
      (s.before.getD s.settings).coreCtl = true ∧ busy = true
  /-- they are not disabled a second time, unless there was nothing to disable -/
  again : ∀ busy, s.disables busy e → ∀ settings, s.before = some settings → settings.Off

/-! ## One controller is restored -/

/-- A service that was stopped runs again when it ran before. -/
theorem startService_stopService (property : CString) :
    startService (serviceState property) (stopService (serviceState property) property) =
      property := by
  unfold startService stopService serviceState
  by_cases hnil : property = []
  · rw [if_pos hnil, if_neg (by decide), if_neg (by decide)]
  · rw [if_neg hnil]
    split
    next hrunning => exact hrunning.symm
    next => rfl

/-- A service that did not run is left alone. -/
theorem startService_eq {saved property : CString} (h : startService saved property ≠ running) :
    startService saved property = property := by
  unfold startService at h ⊢
  split
  next hrunning => exact absurd (if_pos hrunning) h
  next => rfl

/-- A digit is read, and written back in the place of the 0. -/
theorem write_digit : ∀ value < 10,
    startHotplug (readHotplug [] (some ⟨(value : Nat)⟩))
      (stopHotplug (readHotplug [] (some ⟨(value : Nat)⟩)) (some ⟨(value : Nat)⟩)) =
        some ⟨(value : Nat)⟩ := by
  decide

/-- A plain node has its value back. -/
theorem startHotplug_stopHotplug {node : Option Hotplug} (h : Plain node) (saved : CString) :
    startHotplug (readHotplug saved node) (stopHotplug (readHotplug saved node) node) = node := by
  cases node with
  | none => rfl
  | some node =>
    obtain ⟨value⟩ := node
    obtain ⟨hlow, hhigh⟩ := h _ rfl
    obtain ⟨value, rfl⟩ := Int.eq_ofNat_of_zero_le hlow
    exact write_digit value (Nat.lt_succ_of_le (Int.ofNat_le.mp hhigh))

/-- A digit that is not 0 is written. -/
theorem write_ne_zero {node : Hotplug} {c : Char} (hc : c ≠ '0')
    (h : (node.write c).value = 0) : node.write c = node := by
  unfold Hotplug.write at h ⊢
  split
  next hdigit =>
    rw [if_pos hdigit] at h
    refine absurd (Char.toNat_inj.mp ?_) hc
    have hlow := (Char.isDigit_iff_toNat.mp hdigit).1
    have hsub : c.toNat - '0'.toNat = 0 := Int.ofNat_eq_zero.mp h
    have hzero : '0'.toNat = 48 := rfl
    omega
  next => rfl

/-- A node that was off is as it was. -/
theorem startHotplug_eq {saved : CString} {node : Option Hotplug}
    (h : ∀ hotplug, startHotplug saved node = some hotplug → hotplug.value = 0) :
    startHotplug saved node = node := by
  cases node with
  | none => rfl
  | some node =>
    have hvalue : (if saved.head? ≠ some '0' then node.write (saved.headD '\x00')
        else node).value = 0 := h _ rfl
    unfold startHotplug
    rw [Option.map_some]
    split
    next hwritten =>
      rw [if_pos hwritten] at hvalue
      refine congrArg some (write_ne_zero (fun hc => hwritten ?_) hvalue)
      cases saved with
      | nil => exact absurd hc (by decide)
      | cons c saved => exact congrArg some hc
    next => rfl

/-- A write to the governor leaves what is available as it is. -/
theorem available_write (governor : Governor) (name : CString) :
    (governor.write name).available = governor.available := by
  unfold Governor.write
  split <;> rfl

/-- Writing back what was read restores the governor. -/
theorem write_current {governor governor' : Governor} (h : governor'.available = governor.available) :
    governor'.write governor.current = governor := by
  obtain ⟨available, current, hmem⟩ := governor
  obtain ⟨available', current', hmem'⟩ := governor'
  obtain rfl : available' = available := h
  exact dif_pos hmem

/-! ## The invariant -/

/-- The governor of a CPU that has one, and what is noted of it. -/
structure Kept (saved : CString) (current before : Option Governor) : Prop where
  available : current.map Governor.available = before.map Governor.available
  saved : ∀ governor, before = some governor → saved = governor.current

/-- What is noted leads back from the current settings to those before. -/
structure LeadsBack (ko : Bool) (saved : Saved) (current before : Settings) : Prop where
  services : saved.services.zip startService current.services = before.services
  nvHotplug : startHotplug saved.nvHotplug current.nvHotplug = before.nvHotplug
  mtkHotplug : startHotplug saved.mtkHotplug current.mtkHotplug = before.mtkHotplug
  coreCtl : (current.coreCtl || ko) = before.coreCtl
  governors : ∀ i, Kept (saved.governors i) (current.governors i) (before.governors i)

/-- In the time between a disable and an enable. -/
structure State.Inv (ko : Bool) (s : State) : Prop where
  leadsBack : ∀ before, s.before = some before → LeadsBack ko s.saved s.settings before
  /-- only a test changes the governors -/
  idle : ∀ before, s.before = some before → s.working = false →
    s.settings.governors = before.governors

section Step

variable {ko : Bool} {s : State} {saved : Saved} {current before : Settings}

/-- What is kept stays the way back, whatever is written. -/
theorem Kept.write {saved : CString} {current before : Option Governor}
    (h : Kept saved current before) (write : Governor → Governor)
    (hwrite : ∀ governor, (write governor).available = governor.available) :
    Kept saved (current.map write) before := by
  refine ⟨?_, h.saved⟩
  rw [← h.available, Option.map_map]
  exact congrArg (Option.map · current) (funext hwrite)

/-- Writing back what is kept restores the governor. -/
theorem Kept.restored {saved : CString} {current before : Option Governor}
    (h : Kept saved current before) :
    (current.map fun governor => governor.write saved) = before := by
  cases before with
  | none =>
    have hnone := h.available
    rw [Option.map_none, Option.map_eq_none_iff] at hnone
    rw [hnone]
    rfl
  | some governor =>
    obtain ⟨governor', hgovernor', havailable⟩ := Option.map_eq_some_iff.mp h.available
    rw [hgovernor', h.saved governor rfl, Option.map_some, write_current havailable]

/-- Enabling the controllers goes the way back. -/
theorem LeadsBack.enable (h : LeadsBack ko saved current before) :
    current.enable saved ko = before :=
  Settings.ext h.services h.nvHotplug h.mtkHotplug h.coreCtl
    (funext fun i => (h.governors i).restored)

/-- The loop, and the end of a test, change the governors. -/
theorem LeadsBack.setGovernors (h : LeadsBack ko s.saved s.settings before)
    {write : Nat → Governor → Governor}
    (hwrite : ∀ i governor, (write i governor).available = governor.available) :
    LeadsBack ko (s.setGovernors write).saved (s.setGovernors write).settings before :=
  ⟨h.services, h.nvHotplug, h.mtkHotplug, h.coreCtl, fun i => (h.governors i).write _ (hwrite i)⟩

/-- The controllers are what they were, when they are disabled. -/
theorem leadsBack_disable {busy : Bool} (hservices : current.services = before.services)
    (hnv : current.nvHotplug = before.nvHotplug) (hnvPlain : Plain current.nvHotplug)
    (hmtk : current.mtkHotplug = before.mtkHotplug) (hmtkPlain : Plain current.mtkHotplug)
    (hcore : ((current.coreCtl && busy) || ko) = before.coreCtl)
    (hgovernors : current.governors = before.governors) :
    LeadsBack ko (saved.save current) (current.disable (saved.save current) busy) before where
  services := by
    rw [← hservices]
    have hback := startService_stopService
    simp only [Settings.disable, Saved.save, Services.zip, Services.map, hback]
  nvHotplug := (startHotplug_stopHotplug hnvPlain _).trans hnv
  mtkHotplug := (startHotplug_stopHotplug hmtkPlain _).trans hmtk
  coreCtl := hcore
  governors i := by
    refine ⟨congrArg (Option.map Governor.available) (congrFun hgovernors i), ?_⟩
    intro governor hgovernor
    have hcurrent : current.governors i = some governor :=
      (congrFun hgovernors i).trans hgovernor
    simp [Saved.save, hcurrent]

/-- If nothing was on, nothing has changed. -/
theorem LeadsBack.off (h : LeadsBack ko saved current before) (hoff : before.Off) :
    current.services = before.services ∧ current.nvHotplug = before.nvHotplug ∧
      current.mtkHotplug = before.mtkHotplug := by
  refine ⟨?_, ?_, ?_⟩
  · have hservices := h.services
    have hpnpmgr := hoff.pnpmgr
    have hthermald := hoff.thermald
    have hmpdecision := hoff.mpdecision
    rw [← hservices] at hpnpmgr hthermald hmpdecision ⊢
    unfold Services.zip
    rw [startService_eq hpnpmgr, startService_eq hthermald, startService_eq hmpdecision]
  · rw [← h.nvHotplug]
    refine (startHotplug_eq ?_).symm
    rw [h.nvHotplug]
    exact hoff.nvHotplug
  · rw [← h.mtkHotplug]
    refine (startHotplug_eq ?_).symm
    rw [h.mtkHotplug]
    exact hoff.mtkHotplug

/-- Disabling the controllers keeps the way back to the settings before. -/
theorem State.Inv.disable (h : s.Inv ko) {e : Event} (he : Restorable ko s e) {busy : Bool}
    (hdisables : s.disables busy e) (hidle : s.working = false) {before : Settings}
    (hsome : s.before.getD s.settings = before) :
    LeadsBack ko (s.disable busy).saved (s.disable busy).settings before ∧
      (s.disable busy).settings.governors = before.governors := by
  have hcore := he.coreCtl busy hdisables
  rw [hsome] at hcore
  have hnv := he.nvHotplug busy hdisables
  have hmtk := he.mtkHotplug busy hdisables
  cases hbefore : s.before with
  | none =>
    -- the first disable: what is noted is what there is
    rw [hbefore, Option.getD_none] at hsome
    subst hsome
    refine ⟨leadsBack_disable rfl rfl hnv rfl hmtk ?_ rfl, rfl⟩
    rcases hcore with hcore | ⟨hcore, hbusy⟩
    · rw [hcore]
      cases ko <;> simp
    · simp [hcore, hbusy]
  | some before =>
    -- a further one: there was nothing on, so that it notes the same again
    rw [hbefore, Option.getD_some] at hsome
    subst hsome
    have hback := h.leadsBack before hbefore
    obtain ⟨hservices, hnv', hmtk'⟩ := hback.off (he.again busy hdisables before hbefore)
    have hgovernors := h.idle before hbefore hidle
    refine ⟨leadsBack_disable hservices hnv' hnv hmtk' hmtk ?_ hgovernors, hgovernors⟩
    have hloaded := hback.coreCtl
    rcases hcore with hcore | ⟨hcore, hbusy⟩
    · rw [hcore] at hloaded ⊢
      cases ko with
      | true => simp
      | false => simp_all
    · rw [hbusy, Bool.and_true]
      exact hloaded

/-- A step keeps the way back, and one that enables goes it. -/
theorem State.Inv.step (h : s.Inv ko) {e : Event} (he : Restorable ko s e) :
    (s.step ko e).Inv ko ∧ Restored ko s e := by
  cases hworking : s.working with
  -- while a test runs only its own steps do anything, and while none runs only the commands
  | true =>
    cases e with
    | setCtrlStatus buffer busy =>
      have hstep : s.step ko (.setCtrlStatus buffer busy) = s := by simp [State.step, hworking]
      rw [hstep]
      exact ⟨h, fun henables => absurd (hworking.symm.trans henables.1) (by decide)⟩
    | testStart busy =>
      have hstep : s.step ko (.testStart busy) = s := by simp [State.step, hworking]
      rw [hstep]
      exact ⟨h, fun henables => henables.elim⟩
    | setGovernor cpu user =>
      refine ⟨?_, fun henables => henables.elim⟩
      unfold State.step
      dsimp only
      rw [if_pos hworking]
      refine ⟨fun before hbefore => (h.leadsBack before hbefore).setGovernors fun i governor => ?_,
        fun _ _ hidle => absurd (hworking.symm.trans hidle) (by decide)⟩
      split
      · exact available_write _ _
      · rfl
    | testEnd =>
      -- all governors are set to ondemand first, and then to what is noted
      have hstep : s.step ko .testEnd =
          { (s.setGovernors fun _ governor => governor.write govOndemand).enable ko with
            working := false } := by
        simp [State.step, hworking]
      refine ⟨?_, fun _ before hbefore => ?_⟩
      · rw [hstep]
        exact ⟨nofun, nofun⟩
      · rw [hstep]
        exact ((h.leadsBack before hbefore).setGovernors fun _ governor =>
          available_write governor _).enable
  | false =>
    cases e with
    | setCtrlStatus buffer busy =>
      by_cases hone : buffer.head? = some '1'
      · have hstep : s.step ko (.setCtrlStatus buffer busy) = s.enable ko := by
          simp [State.step, hworking, hone]
        refine ⟨?_, fun _ before hbefore => ?_⟩
        · rw [hstep]
          exact ⟨nofun, nofun⟩
        · rw [hstep]
          exact (h.leadsBack before hbefore).enable
      · have hstep : s.step ko (.setCtrlStatus buffer busy) = s.disable busy := by
          simp [State.step, hworking, hone]
        refine ⟨?_, fun henables => absurd henables.2 hone⟩
        rw [hstep]
        have hboth := fun before (hbefore : s.before.getD s.settings = before) =>
          h.disable he ⟨hworking, hone, rfl⟩ hworking hbefore
        exact ⟨fun before hbefore => (hboth before (Option.some.inj hbefore)).1,
          fun before hbefore _ => (hboth before (Option.some.inj hbefore)).2⟩
    | testStart busy =>
      have hstep : s.step ko (.testStart busy) = { s.disable busy with working := true } := by
        simp [State.step, hworking]
      refine ⟨?_, fun henables => henables.elim⟩
      rw [hstep]
      exact ⟨fun before hbefore =>
        (h.disable he ⟨hworking, rfl⟩ hworking (Option.some.inj hbefore)).1, nofun⟩
    | setGovernor cpu user =>
      have hstep : s.step ko (.setGovernor cpu user) = s := by simp [State.step, hworking]
      rw [hstep]
      exact ⟨h, fun henables => henables.elim⟩
    | testEnd =>
      have hstep : s.step ko .testEnd = s := by simp [State.step, hworking]
      rw [hstep]
      exact ⟨h, fun henables => absurd (hworking.symm.trans henables) (by decide)⟩

end Step

/-! ## Every run -/

/-- Whenever the controllers are enabled after a disable, all is as it was before the first:
in every run in which they are disabled twice only if nothing was on, and what is stopped
can be started again. -/
theorem restored_run (ko : Bool) (settings : Settings) (services : Services) (events : List Event)
    (hevents : AllSteps (State.step ko) (Restorable ko) (.init settings services) events) :
    AllSteps (State.step ko) (Restored ko) (.init settings services) events :=
  AllSteps.imp (I := State.Inv ko) (fun _ _ h he => h.step he) ⟨nofun, nofun⟩ hevents

/-- `mpdecision` runs, a hotplug node is on, and the module is loaded. -/
def withMpdecision : Settings where
  services := ⟨stopped, [], running⟩
  nvHotplug := none
  mtkHotplug := some ⟨1⟩
  coreCtl := true
  governors _ := none

/-- An explicit disable and enable, and a test. -/
theorem restored_run_once :
    AllSteps (State.step true) (Restored true) (.init withMpdecision ⟨[], [], []⟩)
      [.setCtrlStatus ['0'] false, .setCtrlStatus ['1'] false, .testStart false,
        .setGovernor 0 true, .testEnd] := by
  have hplain : Plain (some ⟨1⟩) := by
    rintro node ⟨⟩
    exact ⟨by decide, by decide⟩
  refine restored_run _ _ _ _ ⟨?_, ?_, ?_, ?_, ?_, trivial⟩
  · exact ⟨fun _ _ => nofun, fun _ _ => hplain, fun _ _ => .inl rfl, fun _ _ => nofun⟩
  · exact ⟨fun _ h => absurd rfl h.2.1, fun _ h => absurd rfl h.2.1, fun _ h => absurd rfl h.2.1,
      fun _ h => absurd rfl h.2.1⟩
  · exact ⟨fun _ _ => nofun, fun _ _ => hplain, fun _ _ => .inl rfl, fun _ _ => nofun⟩
  · exact ⟨fun _ h => h.elim, fun _ h => h.elim, fun _ h => h.elim, fun _ h => h.elim⟩
  · exact ⟨fun _ h => h.elim, fun _ h => h.elim, fun _ h => h.elim, fun _ h => h.elim⟩

/-- The second disable notes that `mpdecision` is stopped. -/
theorem restored_fails_twice :
    ¬ AllSteps (State.step true) (Restored true) (.init withMpdecision ⟨[], [], []⟩)
      [.setCtrlStatus ['0'] false, .setCtrlStatus ['0'] false, .setCtrlStatus ['1'] false] := by
  intro h
  obtain ⟨-, -, hlast, -⟩ := h
  have hsettings := hlast ⟨rfl, rfl⟩ _ rfl
  have hservices := congrArg Settings.services hsettings
  revert hservices
  decide

end AndroidLearn.Cputest.Controllers

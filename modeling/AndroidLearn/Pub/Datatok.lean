import AndroidLearn.Conf.Lines
import AndroidLearn.Logctl.MoveLog
import AndroidLearn.Logctl.Programs

/-!
# The tokens of a command

`datatok` of `pub/datatok.c` copies what is in front of the first colon with `strcpy`,
into an array that it does not know the size of. The daemons read a command into a buffer
that is larger than the arrays which its tokens go to: in `logctl.c` those of `movelog`
are of `PATH_MAX` bytes, in `lognet.c` the parameters of 12, and the ones of
`thrputclnt.c` of 15, one too few for an address of four times three digits.

An array is a `Vector` here, and a write outside of it is `none`. A command is what `read`
has put into the buffer, with a NUL behind it; what the commands do with their tokens is
not here, but for the parameters that `thrputclnt` keeps for the next command.
`strcpy_isSome` is the only place where a size matters.

Theorem: `tokensFit_iff` says which commands fit, for the three daemons, in every state
and for every input.
-/

namespace AndroidLearn.Pub

open Conf
open Logctl (atoi)
open Logctl.MoveLog (pathMax)

/-! ## `datatok` -/

section Datatok

variable {n : Nat}

/-- `strcpy (& dst [i], src)` -/
def strcpy (dst : Vector Char n) (i : Nat) : CString → Option (Vector Char n)
  | [] => if h : i < n then some (dst.set i '\x00' h) else none
  | c :: src => if h : i < n then strcpy (dst.set i c h) (i + 1) src else none

/-- `datatok`: what is left in `from`, and `to`. -/
def datatok (text : CString) (dst : Vector Char n) : Option (CString × Vector Char n) :=
  match text.dropWhile (· ≠ ':') with
  | [] => (strcpy dst 0 text).map fun dst => ([], dst)
  | _ :: p => (strcpy dst 0 (text.takeWhile (· ≠ ':'))).map fun dst => (p, dst)

end Datatok

/-! ## The commands -/

/-- What `read` leaves in a buffer of `size` bytes. The last byte is NUL: it is not read
to, or it is written over. -/
def readCommand (size : Nat) (bytes : List Char) : CString := cstring (bytes.take (size - 1))

/-- `CMP_CMD` -/
def cmpCmd (s cmd : CString) : Bool := cmd.isPrefixOf s

/-- `MAKE_DATA` -/
def makeData (s cmd : CString) : CString := s.drop cmd.length

/-- The first of the commands that a buffer is compared with and begins with. -/
def commandOf (cmds : List CString) (buffer : CString) : Option CString := cmds.find? (cmpCmd buffer)

/-- The command. -/
def cmdMovelog : CString := ":movelog:".toList
def logSetparam : CString := ":setparam:".toList
def cmdRun : CString := ":run:".toList

/-- The commands of `logctl_main`, the ones in front of `socket_commands` included. -/
def logctlCommands : List CString :=
  [":endserver:".toList, ":help:".toList, ":getver:".toList, ":getpath:".toList, ":run:".toList,
    ":stop:".toList, ":islogging:".toList, ":mount:".toList, ":canwrite:".toList,
    ":clearlog:".toList, ":clearlogdir:".toList, cmdMovelog, ":bugreport:".toList,
    ":dumpsys:".toList, ":getdebug:".toList, ":setdebug:".toList, ":getphonestorage:".toList,
    ":getextstorage:".toList, ":getusbstorage:".toList, ":statfs:".toList, ":getlogfiles:".toList,
    ":getlasterror:".toList, ":syncconf:".toList, ":genconf:".toList, ":storageinit:".toList]

/-- The commands of the service, and the one with parameters among them. -/
def lognetCommands : List CString :=
  [":endserver:".toList, ":getver:".toList, ":islogging:".toList, ":getpath:".toList,
    ":setpath:".toList, ":getparam:".toList, logSetparam, ":run:".toList, ":stop:".toList]

/-- The commands of the client of the throughput test. -/
def thrputclntCommands : List CString :=
  [":isrunning:".toList, cmdRun, ":stop:".toList, ":endserver:".toList]

/-- The arrays of `handle_local_command_movelog`. -/
structure MovePaths where
  srcpath : Vector Char pathMax
  dstpath : Vector Char pathMax

/-- The two paths of `:movelog:`. -/
def MovePaths.parse (paths : MovePaths) (buffer : CString) : Option MovePaths := do
  let (buffer, srcpath) ← datatok buffer paths.srcpath
  let (_, dstpath) ← datatok buffer paths.dstpath
  return ⟨srcpath, dstpath⟩

/-- One command to `logctl`. -/
def logctlCommand (paths : MovePaths) (bytes : List Char) : Option MovePaths :=
  let buffer := readCommand (pathMax + 16) bytes
  if commandOf logctlCommands buffer = some cmdMovelog then paths.parse (makeData buffer cmdMovelog)
  else some paths

/-- `lognet`: whether it is stopped, and its parameters. -/
structure NetParams where
  stopped : Bool
  logSize : Vector Char 12
  logRotate : Vector Char 12
  logLimit : Vector Char 12

/-- The three parameters of `:setparam:`. -/
def NetParams.parse (params : NetParams) (buffer : CString) : Option NetParams := do
  let (buffer, logSize) ← datatok buffer params.logSize
  let (buffer, logRotate) ← datatok buffer params.logRotate
  let (_, logLimit) ← datatok buffer params.logLimit
  return { params with logSize, logRotate, logLimit }

/-- One command to `lognet`. -/
def lognetCommand (params : NetParams) (bytes : List Char) : Option NetParams :=
  let buffer := readCommand (pathMax + 16) bytes
  if commandOf lognetCommands buffer = some logSetparam then
    if params.stopped then params.parse (makeData buffer logSetparam) else some params
  else some params

/-- `thrputclnt`: whether a test is running, and its parameters. -/
structure NetTest where
  working : Bool
  serverIp : Vector Char 15
  portno : Int32
  packageSize : Int32
  reportDelayTime : Int32

/-- The number in an array. -/
def number (temp : Vector Char 15) : Int32 := atoi (cstring temp.toList)

/-- `parseParameters`; `temp` is as it is on the stack. -/
def NetTest.parseParameters (test : NetTest) (temp : Vector Char 15) (param : CString) :
    Option NetTest := do
  let (param, serverIp) ← datatok param test.serverIp
  let (param, temp) ← datatok param temp
  let portno := number temp
  let (param, temp) ← datatok param temp
  let packageSize := number temp
  let (_, temp) ← datatok param temp
  return { test with serverIp, portno, packageSize, reportDelayTime := number temp }

/-- One command to `thrputclnt`. -/
def thrputclntCommand (test : NetTest) (temp : Vector Char 15) (bytes : List Char) :
    Option NetTest :=
  let buffer := readCommand 1024 bytes
  if commandOf thrputclntCommands buffer = some cmdRun then
    if test.working then some test else test.parseParameters temp (makeData buffer cmdRun)
  else some test

/-! ## A token fits -/

section Fits

variable {n : Nat}

/-- `strcpy` stays inside its buffer when there is room for the end, too. -/
theorem strcpy_isSome (dst : Vector Char n) (i : Nat) (src : CString) :
    (strcpy dst i src).isSome ↔ i + src.length < n := by
  induction src generalizing dst i with
  | nil =>
    unfold strcpy
    split
    next h => exact iff_of_true rfl h
    next h => exact iff_of_false Bool.false_ne_true h
  | cons c src ih =>
    unfold strcpy
    split
    next h =>
      rw [ih, List.length_cons]
      omega
    next h =>
      rw [List.length_cons]
      exact iff_of_false Bool.false_ne_true (by omega)

/-- The token and the rest are those of the string, whatever it is copied to. -/
theorem datatok_eq (text : CString) (dst : Vector Char n) :
    datatok text dst =
      (strcpy dst 0 (Logctl.datatok text).1).map fun dst => ((Logctl.datatok text).2, dst) := by
  unfold datatok Logctl.datatok
  cases htext : text.dropWhile (· ≠ ':') with
  | nil =>
    have hwhole : text.takeWhile (· ≠ ':') = text := by
      have happend := List.takeWhile_append_dropWhile (p := (· ≠ ':')) (l := text)
      rwa [htext, List.append_nil] at happend
    rw [hwhole]
    rfl
  | cons c p => rfl

/-- The first `k` pieces of a text are each shorter than `n`. -/
def Short (n k : Nat) (text : CString) : Prop :=
  ∀ token ∈ (text.splitOn ':').take k, token.length < n

/-- No token is asked for. -/
theorem short_zero (text : CString) : Short n 0 text := by
  intro token hmem
  rw [List.take_zero] at hmem
  cases hmem

/-- Without a separator all is one token. -/
theorem datatok_of_notMem {text : CString} (h : ':' ∉ text) : Logctl.datatok text = (text, []) := by
  have hall : ∀ c ∈ text, decide (c ≠ ':') = true := fun c hc =>
    decide_eq_true fun heq => h (heq ▸ hc)
  unfold Logctl.datatok
  rw [List.takeWhile_eq_self_iff.mpr hall, List.dropWhile_eq_nil_iff.mpr hall, List.tail_nil]

/-- A token ends at the first separator. -/
theorem datatok_append {front : CString} (h : ':' ∉ front) (back : CString) :
    Logctl.datatok (front ++ ':' :: back) = (front, back) := by
  have hall : ∀ c ∈ front, decide (c ≠ ':') = true := fun c hc =>
    decide_eq_true fun heq => h (heq ▸ hc)
  unfold Logctl.datatok
  rw [List.takeWhile_append_of_pos hall, List.dropWhile_append_of_pos hall]
  simp

/-- The tokens are the pieces, and empty ones behind the last. -/
theorem short_succ (hn : 0 < n) (k : Nat) (text : CString) :
    Short n (k + 1) text ↔
      (Logctl.datatok text).1.length < n ∧ Short n k (Logctl.datatok text).2 := by
  unfold Short
  by_cases hmem : ':' ∈ text
  · obtain ⟨front, back, rfl, hfront⟩ := List.eq_append_cons_of_mem hmem
    rw [List.splitOn_append_cons_self_of_not_mem hfront, datatok_append hfront, List.take_succ_cons,
      List.forall_mem_cons]
  · have hempty : Short n k [] := fun token htoken => by
      rw [List.splitOn_nil] at htoken
      rw [List.mem_singleton.mp (List.mem_of_mem_take htoken)]
      exact hn
    rw [List.splitOn_eq_singleton hmem, datatok_of_notMem hmem, List.take_succ_cons,
      List.forall_mem_cons, List.take_nil]
    exact and_congr_right fun _ => iff_of_true (fun _ h => absurd h List.not_mem_nil) hempty

/-- One token, and what follows it whatever the array was. -/
theorem bind_datatok_isSome {α : Type} (hn : 0 < n) {k : Nat} {text : CString} {dst : Vector Char n}
    {next : CString × Vector Char n → Option α}
    (hnext : ∀ dst, (next ((Logctl.datatok text).2, dst)).isSome ↔ Short n k (Logctl.datatok text).2) :
    ((datatok text dst).bind next).isSome ↔ Short n (k + 1) text := by
  have hcopy := strcpy_isSome dst 0 (Logctl.datatok text).1
  rw [Nat.zero_add] at hcopy
  rw [short_succ hn, ← hcopy, datatok_eq]
  cases hdst : strcpy dst 0 (Logctl.datatok text).1 with
  | none => simp
  | some dst' =>
    rw [Option.map_some, Option.bind_some, hnext]
    exact (and_iff_right rfl).symm

end Fits

/-! ## The commands that are parsed -/

/-- No command of a table begins with another one. -/
def PrefixFree (cmds : List CString) : Prop := ∀ a ∈ cmds, ∀ b ∈ cmds, a <+: b → a = b

instance (cmds : List CString) : Decidable (PrefixFree cmds) := by
  unfold PrefixFree
  infer_instance

/-- The order of a table then says nothing. -/
theorem commandOf_eq_some {cmds : List CString} (hfree : PrefixFree cmds) {buffer cmd : CString} :
    commandOf cmds buffer = some cmd ↔ cmd ∈ cmds ∧ cmd <+: buffer := by
  constructor
  · intro h
    exact ⟨List.mem_of_find?_eq_some h, List.isPrefixOf_iff_prefix.mp (List.find?_some (p := cmpCmd buffer) h)⟩
  · rintro ⟨hmem, hprefix⟩
    have hsome : (commandOf cmds buffer).isSome :=
      List.find?_isSome.mpr ⟨cmd, hmem, List.isPrefixOf_iff_prefix.mpr hprefix⟩
    obtain ⟨cmd', hcmd'⟩ := Option.isSome_iff_exists.mp hsome
    have hmem' := List.mem_of_find?_eq_some hcmd'
    have hprefix' : cmd' <+: buffer :=
      List.isPrefixOf_iff_prefix.mp (List.find?_some (p := cmpCmd buffer) hcmd')
    rcases List.prefix_or_prefix_of_prefix hprefix hprefix' with h | h
    · rw [hcmd', hfree cmd hmem cmd' hmem' h]
    · rw [hcmd', hfree cmd' hmem' cmd hmem h]

theorem logctlCommands_prefixFree : PrefixFree logctlCommands := by decide

theorem lognetCommands_prefixFree : PrefixFree lognetCommands := by decide

theorem thrputclntCommands_prefixFree : PrefixFree thrputclntCommands := by decide

/-- What is done for one command of a table, and nothing for the others. -/
theorem command_isSome {α : Type} {cmds : List CString} (hfree : PrefixFree cmds) {cmd : CString}
    (hmem : cmd ∈ cmds) (buffer : CString) (parse : CString → Option α) (d : α) :
    (if commandOf cmds buffer = some cmd then parse (makeData buffer cmd) else some d).isSome ↔
      ∀ data, buffer = cmd ++ data → (parse data).isSome := by
  by_cases hcmd : commandOf cmds buffer = some cmd
  · obtain ⟨data, rfl⟩ := ((commandOf_eq_some hfree).mp hcmd).2
    rw [if_pos hcmd, makeData, List.drop_left]
    constructor
    · intro hsome data' heq
      rwa [← List.append_cancel_left heq]
    · exact fun hall => hall data rfl
  · rw [if_neg hcmd]
    refine iff_of_true rfl fun data heq => absurd ?_ hcmd
    exact (commandOf_eq_some hfree).mpr ⟨hmem, heq ▸ List.prefix_append cmd data⟩

/-- The paths are parsed inside their buffers when both are short. -/
theorem movePaths_parse_isSome (paths : MovePaths) (buffer : CString) :
    (paths.parse buffer).isSome ↔ Short pathMax 2 buffer := by
  have hpos : 0 < pathMax := by decide
  refine bind_datatok_isSome hpos fun srcpath => ?_
  refine bind_datatok_isSome hpos fun dstpath => ?_
  exact iff_of_true rfl (short_zero _)

theorem netParams_parse_isSome (params : NetParams) (buffer : CString) :
    (params.parse buffer).isSome ↔ Short 12 3 buffer := by
  have hpos : 0 < 12 := by decide
  refine bind_datatok_isSome hpos fun logSize => ?_
  refine bind_datatok_isSome hpos fun logRotate => ?_
  refine bind_datatok_isSome hpos fun logLimit => ?_
  exact iff_of_true rfl (short_zero _)

theorem parseParameters_isSome (test : NetTest) (temp : Vector Char 15) (param : CString) :
    (test.parseParameters temp param).isSome ↔ Short 15 4 param := by
  have hpos : 0 < 15 := by decide
  refine bind_datatok_isSome hpos fun serverIp => ?_
  refine bind_datatok_isSome hpos fun portno => ?_
  refine bind_datatok_isSome hpos fun packageSize => ?_
  refine bind_datatok_isSome hpos fun reportDelayTime => ?_
  exact iff_of_true rfl (short_zero _)

/-- A daemon that parses tokens, as it is before a command. -/
inductive Daemon
  | logctl (paths : MovePaths)
  | lognet (params : NetParams)
  | thrputclnt (test : NetTest) (temp : Vector Char 15)

namespace Daemon

/-- The bytes of its read buffer. -/
def bufferSize : Daemon → Nat
  | logctl _ => pathMax + 16
  | lognet _ => pathMax + 16
  | thrputclnt .. => 1024

/-- The command whose tokens are copied. -/
def cmd : Daemon → CString
  | logctl _ => cmdMovelog
  | lognet _ => logSetparam
  | thrputclnt .. => cmdRun

/-- The parameters are not changed while they are in use. -/
def ready : Daemon → Bool
  | logctl _ => true
  | lognet params => params.stopped
  | thrputclnt test _ => ! test.working

/-- How many tokens are copied. -/
def tokens : Daemon → Nat
  | logctl _ => 2
  | lognet _ => 3
  | thrputclnt .. => 4

/-- The bytes of each array that a token is copied to. -/
def size : Daemon → Nat
  | logctl _ => pathMax
  | lognet _ => 12
  | thrputclnt .. => 15

/-- The command that is in `bytes` is run with no write outside of the arrays. -/
def TokensFit (bytes : List Char) : Daemon → Prop
  | logctl paths => (logctlCommand paths bytes).isSome
  | lognet params => (lognetCommand params bytes).isSome
  | thrputclnt test temp => (thrputclntCommand test temp bytes).isSome

/-- If it is the command with the tokens, and it is obeyed, each of these is shorter than
its array. -/
def TokensShort (bytes : List Char) (d : Daemon) : Prop :=
  ∀ data, readCommand d.bufferSize bytes = d.cmd ++ data → d.ready = true →
    Short d.size d.tokens data

end Daemon

/-- Whatever is sent, the tokens of a command fit if and only if they are short. -/
theorem tokensFit_iff (d : Daemon) (bytes : List Char) : d.TokensFit bytes ↔ d.TokensShort bytes := by
  cases d with
  | logctl paths =>
    refine (command_isSome logctlCommands_prefixFree (by decide) _ paths.parse paths).trans ?_
    refine forall₂_congr fun data _ => ?_
    rw [movePaths_parse_isSome]
    exact (imp_iff_right rfl).symm
  | lognet params =>
    refine (command_isSome lognetCommands_prefixFree (by decide) _
      (fun data => if params.stopped then params.parse data else some params) params).trans ?_
    refine forall₂_congr fun data _ => ?_
    show _ ↔ (params.stopped = true → Short 12 3 data)
    rw [← netParams_parse_isSome params]
    split
    next hstopped => exact (imp_iff_right hstopped).symm
    next hstopped => exact iff_of_true rfl fun h => absurd h hstopped
  | thrputclnt test temp =>
    refine (command_isSome thrputclntCommands_prefixFree (by decide) _
      (fun data => if test.working then some test else test.parseParameters temp data) test).trans ?_
    refine forall₂_congr fun data _ => ?_
    show _ ↔ ((! test.working) = true → Short 15 4 data)
    rw [← parseParameters_isSome test temp, Bool.not_eq_true']
    split
    next hworking => exact iff_of_true rfl fun h => absurd (hworking.symm.trans h) (by simp)
    next hworking => exact (imp_iff_right (Bool.eq_false_of_not_eq_true hworking)).symm

/-- `thrputclnt` as it begins. -/
def idleTest : NetTest where
  working := false
  serverIp := Vector.replicate 15 '\x00'
  portno := 0
  packageSize := 1460
  reportDelayTime := 10

/-- An address of fifteen characters has no room for its NUL. -/
theorem tokensFit_fails_address : ¬ ∀ (d : Daemon) (bytes : List Char), d.TokensFit bytes := by
  intro hall
  have hfit := hall (.thrputclnt idleTest (Vector.replicate 15 '\x00'))
    ":run:255.255.255.255:80:1460:10".toList
  exact Bool.false_ne_true hfit

end AndroidLearn.Pub
